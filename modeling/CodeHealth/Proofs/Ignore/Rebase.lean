import CodeHealth.Proofs.Ignore.Line

/-!
# Lines of nested ignore files

A line of an ignore file in a directory is moved to the root of the project by putting the path of
the directory in front of its pattern.  So the moved pattern is anchored at the directory, whether
or not it was anchored before: it says about the paths in the directory what the line with its
pattern anchored says.  For an anchored pattern that is what the line says.  A pattern that holds at
any depth loses its reach: only what lies in the directory itself is judged as before.
-/

namespace CodeHealth.Ignore

/-! ## Directories -/

/-- Components that a pattern reads as they stand. -/
structure PlainParts (parts : List Text) : Prop where
  ne_nil : parts ≠ []
  nonempty : ∀ s ∈ parts, s ≠ []
  plain : ∀ s ∈ parts, (∀ c ∈ s, c ∉ globMarks) ∧ '/' ∉ s
  /-- The path is not read from somewhere else, and makes no negation and no comment. -/
  first : ∀ s ∈ parts.head?, s ≠ ['.'] ∧ s.head? ≠ some '!' ∧ s.head? ≠ some '#'

namespace PlainParts

variable {parts : List Text} (h : PlainParts parts)

include h

/-- A path below a plain one begins with a component that neither the path nor a pattern can be
taken for anything else by. -/
theorem exists_joinParts_append_eq (path : Text) : ∃ c s rest,
    Path.joinParts parts ++ '/' :: path = c :: (s ++ '/' :: rest) ∧ '/' ∉ c :: s ∧
      c :: s ≠ ['.'] ∧ c ≠ '!' ∧ c ≠ '#' := by
  obtain ⟨hne, hnonempty, hplain, hfirst⟩ := h
  obtain ⟨first, more, rfl⟩ := List.exists_cons_of_ne_nil hne
  obtain ⟨c, s, rfl⟩ := List.exists_cons_of_ne_nil (hnonempty first List.mem_cons_self)
  obtain ⟨hdot, hmark, hcomment⟩ := hfirst (c :: s) rfl
  obtain ⟨rest, hrest⟩ : ∃ rest,
      Path.joinParts ((c :: s) :: more) ++ '/' :: path = c :: (s ++ '/' :: rest) := by
    by_cases hmore : more = []
    · exact ⟨path, by simp [hmore, Path.joinParts]⟩
    · exact ⟨_, by rw [Path.joinParts_cons (c :: s) hmore, List.append_assoc]; rfl⟩
  exact ⟨c, s, rest, hrest, (hplain _ List.mem_cons_self).2, hdot, by simpa using hmark,
    by simpa using hcomment⟩

theorem isRelative_append (path : Text) : IsRelative (Path.joinParts parts ++ '/' :: path) := by
  obtain ⟨c, s, rest, heq, hslash, hdot, -⟩ := h.exists_joinParts_append_eq path
  rw [heq]
  constructor
  · rintro ⟨⟩
    exact hslash List.mem_cons_self
  · intro hprefix
    cases s with
    | nil => exact hdot (by simpa [eq_comm] using hprefix)
    | cons d s =>
      obtain ⟨-, hrest⟩ := List.cons_prefix_cons.mp hprefix
      obtain ⟨rfl, -⟩ := List.cons_prefix_cons.mp hrest
      exact hslash (by simp)

theorem joinParts_ne_nil : Path.joinParts parts ≠ [] := by
  intro hnil
  obtain ⟨c, s, rest, heq, hslash, -⟩ := h.exists_joinParts_append_eq []
  rw [hnil] at heq
  obtain ⟨rfl, -⟩ := List.cons.inj heq
  exact hslash List.mem_cons_self

theorem map_ofText : parts.map Segment.ofText = parts.map .text := by
  refine List.map_congr_left fun s hs ↦ ?_
  rw [Segment.ofText, if_neg]
  rw [beq_iff_eq]
  rintro rfl
  exact (h.plain _ hs).1 '*' (by simp) (by simp [globMarks])

theorem cutAt_joinParts : (Path.joinParts parts).cutAt '/' = parts :=
  Path.cutAt_joinParts h.ne_nil fun s hs ↦ (h.plain s hs).2

/-- With a plain path in front, every pattern is anchored. -/
theorem segments_joinParts_append {t : Text} (led : Bool) (ht : t ≠ []) :
    segments (lead led ++ (Path.joinParts parts ++ '/' :: t)) =
      parts.map .text ++ collapse (rootedSegments (t.cutAt '/')) := by
  have hanchored : segments (lead led ++ (Path.joinParts parts ++ '/' :: t)) =
      collapse (rootedSegments ((Path.joinParts parts ++ '/' :: t).cutAt '/')) := by
    cases led with
    | true => exact segments_slash _
    | false =>
      refine segments_inner (h.isRelative_append t).1 ?_
      simp [List.dropLast_cons_of_ne_nil ht]
  rw [hanchored, Text.cutAt_append_cons, h.cutAt_joinParts,
    rootedSegments_append parts (Text.cutAt_ne_nil '/' t), h.map_ofText, collapse_texts_append]

end PlainParts

theorem plainParts_top : PlainParts [['p']] :=
  ⟨by simp, by simp, by simp [globMarks], by simp⟩

theorem plainParts_nested : PlainParts [['p'], ['q']] :=
  ⟨by simp, by simp, by simp [globMarks], by simp⟩

/-! ## Lines -/

/-- The line is not handed back as it stands. -/
structure IsMoved (line : Text) : Prop where
  ne_nil : line ≠ []
  comment : line.trimLeft.head? ≠ some '#'
  escaped : ¬ ['\\', '!'] <+: line ∧ ¬ ['\\', '#'] <+: line

/-- A line that begins with none of white space, a number sign and an escape is moved. -/
theorem isMoved_cons {c : Char} {t : Text} (hblank : Text.isBlank c = false) (hc : c ≠ '#')
    (hesc : c ≠ '\\') : IsMoved (c :: t) := by
  refine ⟨List.cons_ne_nil c t, ?_, ?_, ?_⟩
  · simp [Text.trimLeft, hblank, hc]
  · simp [Ne.symm hesc]
  · simp [Ne.symm hesc]

theorem IsMoved.head?_ne {line : Text} (h : IsMoved line) : line.head? ≠ some '#' := by
  intro hhead
  obtain ⟨t, rfl⟩ := List.head?_eq_some_iff.mp hhead
  exact h.comment (by simp [Text.trimLeft, show Text.isBlank '#' = false by decide])

/-- A line is moved by putting the directory in front of what stands behind its mark and slash. -/
theorem rebase_eq {base line : Text} (hbase : base ≠ []) (hline : IsMoved line)
    (hcore : coreOf line ≠ []) :
    rebase base line =
      mark (isNegated line) ++ (lead (isLed line) ++ (base ++ '/' :: coreOf line)) := by
  obtain ⟨hne, hcomment, hmark, hnumber⟩ := hline
  have hmoved : (base.isEmpty || line.isEmpty || line.trimLeft.head? == some '#' ||
      ['\\', '!'].isPrefixOf line || ['\\', '#'].isPrefixOf line) = false := by
    simp [hbase, hne, hcomment, ← Bool.not_eq_true, hmark, hnumber]
  rw [rebase, if_neg (by simp [hmoved])]
  have hpattern : (coreOf line).isEmpty = false := by simp [hcore]
  calc mark (isNegated line) ++ lead (isLed line) ++ base ++
        (if (coreOf line).isEmpty then [] else '/' :: coreOf line)
    _ = mark (isNegated line) ++ (lead (isLed line) ++ (base ++ '/' :: coreOf line)) := by
      simp [hpattern]

/-- The line with its pattern anchored at the directory of the line. -/
def anchor (line : Text) : Text :=
  mark (isNegated line) ++ '/' :: coreOf line

variable {parts : List Text} {line path : Text}

theorem lineVerdict_anchor (hcore : trimLine (coreOf line) ≠ []) :
    lineVerdict (anchor line) path = judge (anchor line) (!isNegated line)
      (patternHits ('/' :: trimLine (coreOf line)) (normalPath path)) := by
  have htrim : trimLine ('/' :: coreOf line) = '/' :: trimLine (coreOf line) :=
    trimLine_append_cons [] (by decide) (by decide) _
  rw [← htrim]
  refine lineVerdict_mark_append (by simp [htrim]) (fun _ ↦ ⟨by simp, by simp, ?_⟩) path
  simpa [htrim] using hcore

theorem lineVerdict_rebase_of_ne_nil (hbase : PlainParts parts) (hline : IsMoved line)
    (hcore : coreOf line ≠ []) :
    lineVerdict (rebase (Path.joinParts parts) line) path =
      judge (rebase (Path.joinParts parts) line) (!isNegated line)
        (patternHits (lead (isLed line) ++ (Path.joinParts parts ++ '/' :: trimLine (coreOf line)))
          (normalPath path)) := by
  have htrim : trimLine (lead (isLed line) ++ (Path.joinParts parts ++ '/' :: coreOf line)) =
      lead (isLed line) ++ (Path.joinParts parts ++ '/' :: trimLine (coreOf line)) := by
    rw [← List.append_assoc, trimLine_append_cons _ (by decide) (by decide), List.append_assoc]
  rw [rebase_eq hbase.joinParts_ne_nil hline hcore, ← htrim]
  refine lineVerdict_mark_append (by simp [htrim]) (fun _ ↦ ?_) path
  rw [htrim]
  cases isLed line with
  | true => simp [lead]
  | false =>
    obtain ⟨c, s, rest, heq, -, -, hmark, hcomment⟩ :=
      hbase.exists_joinParts_append_eq (coreOf line)
    obtain ⟨d, s', rest', heq', -⟩ := hbase.exists_joinParts_append_eq (trimLine (coreOf line))
    simp [lead, heq, heq', hmark, hcomment]

theorem lineVerdict_rebase (hbase : PlainParts parts) (hline : IsMoved line)
    (hcore : trimLine (coreOf line) ≠ []) :
    lineVerdict (rebase (Path.joinParts parts) line) path =
      judge (rebase (Path.joinParts parts) line) (!isNegated line)
        (patternHits (lead (isLed line) ++ (Path.joinParts parts ++ '/' :: trimLine (coreOf line)))
          (normalPath path)) :=
  lineVerdict_rebase_of_ne_nil hbase hline fun h ↦ hcore (by rw [h]; rfl)

theorem patternHits_slash {t : Text} (ht : t ≠ []) :
    patternHits ('/' :: t) path = (Matcher.ofSegments (t.getLast? == some '/')
      (collapse (rootedSegments (t.cutAt '/')))).bind (·.outcome path) := by
  rw [patternHits, segments_slash, ← List.singleton_append,
    List.getLast?_append_of_ne_nil _ ht]

/-- A component of a pattern that is neither empty nor a double asterisk. -/
def IsName (s : Text) : Prop :=
  s ≠ [] ∧ s ≠ ['*', '*']

theorem text_mem_rootedSegments {parts : List Text} {s : Text} (hs : s ∈ parts)
    (hname : IsName s) : .text s ∈ rootedSegments parts := by
  obtain ⟨hnil, hstars⟩ := hname
  have htext : Segment.ofText s = .text s := by simp [Segment.ofText, hstars]
  obtain ⟨front, more, rfl⟩ := List.append_of_mem hs
  rw [rootedSegments_append front (List.cons_ne_nil _ _), List.mem_append]
  refine .inr ?_
  rw [rootedSegments, htext]
  · exact List.mem_cons_self
  · exact fun h ↦ absurd h hnil

/-- The pattern names a component, or takes everything. -/
def Selects (t : Text) : Prop :=
  t = ['*', '*'] ∨ ∃ s ∈ t.cutAt '/', IsName s

theorem Selects.ne_nil {t : Text} (h : Selects t) : t ≠ [] := by
  rintro rfl
  obtain h | ⟨s, hs, hname⟩ := h
  · exact List.cons_ne_nil _ _ h.symm
  · exact hname.1 (List.mem_singleton.mp hs)

theorem PlainParts.patternHits_append {t : Text} (hbase : PlainParts parts) (led : Bool)
    (ht : t ≠ []) :
    patternHits (lead led ++ (Path.joinParts parts ++ '/' :: t)) path =
      (Matcher.ofSegments (t.getLast? == some '/')
        (parts.map .text ++ collapse (rootedSegments (t.cutAt '/')))).bind (·.outcome path) := by
  have hlast : (lead led ++ (Path.joinParts parts ++ '/' :: t)).getLast? = t.getLast? := by
    rw [← List.append_assoc, List.append_cons, List.getLast?_append_of_ne_nil _ ht]
  rw [patternHits, hlast, hbase.segments_joinParts_append led ht]

theorem ne_nil_of_text_mem {t s : Text} (hs : .text s ∈ rootedSegments (t.cutAt '/')) : t ≠ [] := by
  rintro rfl
  simp [Text.cutAt, rootedSegments] at hs

/-- Below a plain path, a pattern with a text hits behind it what the pattern hits anchored. -/
theorem patternHits_below_of_text {t s : Text} (hbase : PlainParts parts) (led : Bool)
    (hs : .text s ∈ rootedSegments (t.cutAt '/')) (hne : path ≠ [])
    (hhead : path.head? ≠ some '/') :
    patternHits (lead led ++ (Path.joinParts parts ++ '/' :: t))
        (Path.joinParts parts ++ '/' :: path) =
      patternHits ('/' :: t) path := by
  have ht := ne_nil_of_text_mem hs
  rw [hbase.patternHits_append led ht, patternHits_slash ht]
  exact outcome_ofSegments_below hbase.ne_nil hbase.plain hs hne hhead

/-- Below a plain path, a pattern behind it hits what the pattern hits anchored. -/
theorem patternHits_below {t : Text} (hbase : PlainParts parts) (led : Bool) (ht : Selects t)
    (hne : path ≠ []) (hhead : path.head? ≠ some '/') :
    patternHits (lead led ++ (Path.joinParts parts ++ '/' :: t))
        (Path.joinParts parts ++ '/' :: path) =
      patternHits ('/' :: t) path := by
  obtain rfl | ⟨s, hs, hname⟩ := ht
  · rw [hbase.patternHits_append led (List.cons_ne_nil _ _), patternHits_slash (List.cons_ne_nil _ _)]
    exact outcome_ofSegments_below_anything hbase.ne_nil hbase.plain hne
  · exact patternHits_below_of_text hbase led (text_mem_rootedSegments hs hname) hne hhead

/-- The moved line says about a path in the directory what the line, anchored there, says. -/
theorem lineVerdict_rebase_iff {v : Option Bool} (hbase : PlainParts parts) (hline : IsMoved line)
    (hcore : Selects (trimLine (coreOf line))) (hne : path ≠ []) (hpath : IsRelative path) :
    lineVerdict (rebase (Path.joinParts parts) line) (Path.joinParts parts ++ '/' :: path) = .ok v ↔
      lineVerdict (anchor line) path = .ok v := by
  rw [lineVerdict_rebase hbase hline hcore.ne_nil, lineVerdict_anchor hcore.ne_nil,
    normalPath_eq_self (hbase.isRelative_append path), normalPath_eq_self hpath,
    patternHits_below hbase (isLed line) hcore hne hpath.1]
  exact judge_eq_ok_iff

theorem mem_cutAt_core {s : Text} (hs : s ∈ (trimLine (patternOf line)).cutAt '/')
    (hname : IsName s) : s ∈ (trimLine (coreOf line)).cutAt '/' := by
  rw [trimLine_patternOf] at hs
  cases hled : isLed line with
  | true =>
    rw [hled, lead, if_pos rfl, List.singleton_append, ← List.nil_append ('/' :: _),
      Text.cutAt_append_cons, List.mem_append] at hs
    refine hs.resolve_left fun hnil ↦ hname.1 ?_
    exact List.mem_singleton.mp hnil
  | false => simpa [hled, lead] using hs

theorem anchor_of_isLed (hled : isLed line = true) : anchor line = line := by
  rw [anchor, ← List.singleton_append, show ['/'] = lead (isLed line) by rw [hled]; rfl,
    lead_append_coreOf, mark_append_patternOf]

/-- Without a slash at the start, a line says what it says anchored if the pattern hits the same
with and without that slash. -/
theorem lineVerdict_anchor_iff {v : Option Bool} (hcomment : line.head? ≠ some '#')
    (hled : isLed line = false) (hne : trimLine (patternOf line) ≠ [])
    (hhits : patternHits ('/' :: trimLine (patternOf line)) (normalPath path) =
      patternHits (trimLine (patternOf line)) (normalPath path)) :
    lineVerdict (anchor line) path = .ok v ↔ lineVerdict line path = .ok v := by
  have hcore : coreOf line = patternOf line := by simp [coreOf, hled]
  have hslash : trimLine (patternOf line) ≠ ['/'] := by
    intro heq
    have hhead := head?_trimLine hne
    rw [heq] at hhead
    simp [isLed, ← hhead] at hled
  rw [lineVerdict_anchor (by rwa [hcore]), hcore, hhits, lineVerdict_eq hcomment hne hslash]
  exact judge_eq_ok_iff

/-! ## Anchored patterns -/

/-- An anchored pattern that names something is moved faithfully. -/
theorem lineVerdict_rebase_anchored_iff {s : Text} {v : Option Bool} (hbase : PlainParts parts)
    (hline : IsMoved line)
    (hinner : ∃ before behind, trimLine (patternOf line) = before ++ '/' :: behind ∧
      ∃ c ∈ behind, c ≠ '/')
    (hs : s ∈ (trimLine (patternOf line)).cutAt '/') (hname : IsName s) (hne : path ≠ [])
    (hpath : IsRelative path) :
    lineVerdict (rebase (Path.joinParts parts) line) (Path.joinParts parts ++ '/' :: path) = .ok v ↔
      lineVerdict line path = .ok v := by
  have hcore : Selects (trimLine (coreOf line)) := .inr ⟨s, mem_cutAt_core hs hname, hname⟩
  rw [lineVerdict_rebase_iff hbase hline hcore hne hpath]
  cases hled : isLed line with
  | true => rw [anchor_of_isLed hled]
  | false =>
    obtain ⟨before, behind, heq, c, hc, -⟩ := hinner
    have hbody : trimLine (patternOf line) ≠ [] := by simp [heq]
    have hhead : (trimLine (patternOf line)).head? ≠ some '/' := by
      rw [head?_trimLine hbody]
      simpa [isLed] using hled
    have hslash : '/' ∈ (trimLine (patternOf line)).dropLast := by
      rw [heq, List.dropLast_append_cons, List.dropLast_cons_of_ne_nil (List.ne_nil_of_mem hc)]
      simp
    refine lineVerdict_anchor_iff hline.head?_ne hled hbody ?_
    rw [patternHits_slash hbody, patternHits, segments_inner hhead hslash]

/-- The line `!**/g/* `. -/
def starredLine : Text := ['!', '*', '*', '/', 'g', '/', '*', ' ']

/-- In `p/q`, it includes `p/q/a/g/x` again. -/
theorem lineVerdict_rebase_anchored_iff_starred :
    PlainParts [['p'], ['q']] ∧ IsMoved starredLine ∧
    (∃ before behind, trimLine (patternOf starredLine) = before ++ '/' :: behind ∧
      ∃ c ∈ behind, c ≠ '/') ∧
    ['g'] ∈ (trimLine (patternOf starredLine)).cutAt '/' ∧ IsName ['g'] ∧
    IsRelative ['a', '/', 'g', '/', 'x'] ∧
    lineVerdict (rebase (Path.joinParts [['p'], ['q']]) starredLine)
      (Path.joinParts [['p'], ['q']] ++ '/' :: ['a', '/', 'g', '/', 'x']) = .ok (some false) := by
  have hline : IsMoved starredLine := isMoved_cons (by decide) (by decide) (by decide)
  have hinner : ∃ before behind, trimLine (patternOf starredLine) = before ++ '/' :: behind ∧
      ∃ c ∈ behind, c ≠ '/' := ⟨['*', '*'], ['g', '/', '*'], by decide, 'g', by decide, by decide⟩
  have hname : IsName ['g'] := ⟨by decide, by decide⟩
  have hpath : IsRelative ['a', '/', 'g', '/', 'x'] := ⟨by decide, by decide⟩
  exact ⟨plainParts_nested, hline, hinner, by decide, hname, hpath,
    (lineVerdict_rebase_anchored_iff plainParts_nested hline hinner (by decide) hname (by decide)
      hpath).mpr rfl⟩

/-! ## Patterns that hold at any depth -/

theorem exists_rootedSegments_eq {t s : Text} (h : '/' ∉ t.dropLast) (hs : s ∈ t.cutAt '/')
    (hname : IsName s) : ∃ rest, (rest = [] ∨ rest = [.anyDepth]) ∧
      rootedSegments (t.cutAt '/') = .text s :: rest := by
  have htext : Segment.ofText s = .text s := by simp [Segment.ofText, hname.2]
  rcases List.eq_nil_or_concat' t with rfl | ⟨init, last, rfl⟩
  · exact absurd (List.mem_singleton.mp hs) hname.1
  rw [List.dropLast_concat] at h
  by_cases hlast : last = '/'
  · subst hlast
    rw [Text.cutAt_append_cons, Text.cutAt_of_notMem h] at hs ⊢
    obtain rfl : s = init := by simpa [Text.cutAt, hname.1] using hs
    exact ⟨[.anyDepth], .inr rfl, by simp [Text.cutAt, rootedSegments, htext]⟩
  · rw [Text.cutAt_of_notMem (by simp [h, Ne.symm hlast])] at hs ⊢
    obtain rfl : s = init ++ [last] := List.mem_singleton.mp hs
    refine ⟨[], .inl rfl, ?_⟩
    rw [rootedSegments, htext]
    · rfl
    · simp

/-- Anchoring a pattern does not change what it hits in its directory itself. -/
theorem patternHits_slash_child {t : Text} (ht : Selects t) (hhead : t.head? ≠ some '/')
    (h : '/' ∉ t.dropLast) (hne : path ≠ []) (hslash : path.head? ≠ some '/')
    (hchild : '/' ∉ path.dropLast) : patternHits ('/' :: t) path = patternHits t path := by
  have hnil := ht.ne_nil
  obtain rfl | ⟨s, hs, hname⟩ := ht
  · rfl
  obtain ⟨rest, hrest, heq⟩ := exists_rootedSegments_eq h hs hname
  have hcollapse : collapse (.text s :: rest) = .text s :: rest := by
    rcases hrest with rfl | rfl <;> simp [collapse]
  have hcollapse' : collapse (.anyDepth :: .text s :: rest) = .anyDepth :: .text s :: rest := by
    rw [collapse, hcollapse]
  rw [patternHits_slash hnil, patternHits, segments_unanchored hnil hhead h, heq, hcollapse,
    hcollapse', outcome_ofSegments_child hname.1 hrest hne hslash hchild]

theorem selects_of_notMem_dropLast {t : Text} (h : '/' ∉ t.dropLast)
    (ht : t ∉ [[], ['/'], ['*', '*', '/']]) : Selects t := by
  rcases List.eq_nil_or_concat' t with rfl | ⟨init, last, rfl⟩
  · exact absurd (by simp) ht
  rw [List.dropLast_concat] at h
  by_cases hlast : last = '/'
  · subst hlast
    refine .inr ⟨init, ?_, ?_, ?_⟩
    · simp [Text.cutAt_append_cons, Text.cutAt_of_notMem h]
    · rintro rfl
      exact ht (by simp)
    · rintro rfl
      exact ht (by simp)
  · by_cases hstars : init ++ [last] = ['*', '*']
    · exact .inl hstars
    · refine .inr ⟨init ++ [last], ?_, by simp, hstars⟩
      rw [Text.cutAt_of_notMem (by simp [h, Ne.symm hlast])]
      exact List.mem_singleton_self _

theorem isLed_eq_false (h : '/' ∉ (trimLine (patternOf line)).dropLast)
    (hne : trimLine (patternOf line) ≠ ['/']) : isLed line = false := by
  by_contra hled
  rw [Bool.not_eq_false] at hled
  rw [trimLine_patternOf, hled, lead, if_pos rfl, List.singleton_append] at h hne
  have hcore : trimLine (coreOf line) ≠ [] := fun hnil ↦ hne (by rw [hnil])
  exact h (by simp [List.dropLast_cons_of_ne_nil hcore])

/-- A pattern that holds at any depth is moved as if it were anchored, so that only what lies in the
directory itself is judged as before. -/
theorem lineVerdict_rebase_unanchored_iff {v : Option Bool} (hbase : PlainParts parts)
    (hline : IsMoved line) (hslash : '/' ∉ (trimLine (patternOf line)).dropLast)
    (hpattern : trimLine (patternOf line) ∉ [[], ['/'], ['*', '*', '/']]) (hne : path ≠ [])
    (hpath : IsRelative path) :
    (lineVerdict (rebase (Path.joinParts parts) line) (Path.joinParts parts ++ '/' :: path) =
        .ok v ↔
      lineVerdict (anchor line) path = .ok v) ∧
    ('/' ∉ path.dropLast →
      (lineVerdict (rebase (Path.joinParts parts) line) (Path.joinParts parts ++ '/' :: path) =
          .ok v ↔
        lineVerdict line path = .ok v)) := by
  have hselects := selects_of_notMem_dropLast hslash hpattern
  have hled : isLed line = false := isLed_eq_false hslash fun heq ↦ hpattern (by simp [heq])
  have hcore : coreOf line = patternOf line := by simp [coreOf, hled]
  have hmoved := lineVerdict_rebase_iff (v := v) hbase hline (hcore ▸ hselects) hne hpath
  refine ⟨hmoved, fun hchild ↦ hmoved.trans ?_⟩
  have hhead : (trimLine (patternOf line)).head? ≠ some '/' := by
    rw [head?_trimLine hselects.ne_nil]
    simpa [isLed] using hled
  refine lineVerdict_anchor_iff hline.head?_ne hled hselects.ne_nil ?_
  rw [normalPath_eq_self hpath]
  exact patternHits_slash_child hselects hhead hslash hne hpath.1 hchild

/-- The line `*.t` in `p/q` is moved rightly for `p/q/a.t`, but not for `p/q/d/a.t`. -/
theorem lineVerdict_rebase_unanchored_iff_suffix :
    PlainParts [['p'], ['q']] ∧ IsMoved ['*', '.', 't'] ∧
    '/' ∉ (trimLine (patternOf ['*', '.', 't'])).dropLast ∧
    trimLine (patternOf ['*', '.', 't']) ∉ [[], ['/'], ['*', '*', '/']] ∧
    lineVerdict (rebase (Path.joinParts [['p'], ['q']]) ['*', '.', 't'])
      (Path.joinParts [['p'], ['q']] ++ '/' :: ['a', '.', 't']) = .ok (some true) ∧
    lineVerdict (rebase (Path.joinParts [['p'], ['q']]) ['*', '.', 't'])
      (Path.joinParts [['p'], ['q']] ++ '/' :: ['d', '/', 'a', '.', 't']) = .ok none := by
  have hline : IsMoved ['*', '.', 't'] := isMoved_cons (by decide) (by decide) (by decide)
  refine ⟨plainParts_nested, hline, by decide, by decide, ?_, ?_⟩
  · exact ((lineVerdict_rebase_unanchored_iff plainParts_nested hline (by decide) (by decide)
      (by decide) ⟨by decide, by decide⟩).2 (by decide)).mpr rfl
  · exact (lineVerdict_rebase_unanchored_iff plainParts_nested hline (by decide) (by decide)
      (by decide) ⟨by decide, by decide⟩).1.mpr rfl

/-- A pattern that holds at any depth loses its reach: the line `x` ignores `d/x`, but moved from
`p` it does not ignore `p/d/x`. -/
theorem lineVerdict_rebase_loses_depth :
    PlainParts [['p']] ∧ IsMoved ['x'] ∧ '/' ∉ patternOf ['x'] ∧ IsRelative ['d', '/', 'x'] ∧
    lineVerdict ['x'] ['d', '/', 'x'] = .ok (some true) ∧
    lineVerdict (rebase (Path.joinParts [['p']]) ['x'])
      (Path.joinParts [['p']] ++ '/' :: ['d', '/', 'x']) = .ok none :=
  ⟨plainParts_top, isMoved_cons (by decide) (by decide) (by decide), by decide,
    ⟨by decide, by decide⟩, rfl, rfl⟩

/-! ## Nothing outside the directory -/

/-- A line with something to look for says nothing about what lies outside its directory, if it is
moved at all; nor does a line without a pattern. -/
theorem lineVerdict_rebase_outside (hbase : PlainParts parts)
    (hline : line = [] ∨ line.head? = some '#' ∨
      IsMoved line ∧ ∃ c ∈ coreOf line, Text.isBlank c = false)
    (hpath : IsRelative path) (hout : ¬ Path.joinParts parts ++ ['/'] <+: path) (ignores : Bool) :
    lineVerdict (rebase (Path.joinParts parts) line) path ≠ .ok (some ignores) := by
  rcases hline with rfl | hcomment | ⟨hline, c, hc, hblank⟩
  · have hnil : lineVerdict [] path = .ok none := rfl
    simp [rebase, hnil]
  · obtain ⟨t, rfl⟩ := List.head?_eq_some_iff.mp hcomment
    have hsame : rebase (Path.joinParts parts) ('#' :: t) = '#' :: t := by
      simp [rebase, Text.trimLeft, show Text.isBlank '#' = false by decide]
    rw [hsame, lineVerdict_comment]
    simp
  · have hcore := trimLine_ne_nil hblank hc
    have hss := collapse_ne_nil
      (rootedSegments_ne_nil (Text.cutAt_ne_nil '/' (trimLine (coreOf line))))
    rw [lineVerdict_rebase hbase hline hcore, normalPath_eq_self hpath, patternHits,
      hbase.segments_joinParts_append _ hcore, Ne, judge_eq_some_iff]
    -- A pattern behind the path of the directory hits in the directory only.
    rintro ⟨hhit, -⟩
    obtain ⟨rest, rfl⟩ := exists_eq_of_outcome_ofSegments hbase.ne_nil hbase.plain hss hhit
    exact hout (by simp)

/-- The line `!/*` in `p` says nothing about `q/p/x`. -/
theorem lineVerdict_rebase_outside_negated :
    PlainParts [['p']] ∧ IsMoved ['!', '/', '*'] ∧ IsRelative ['q', '/', 'p', '/', 'x'] ∧
    ¬ Path.joinParts [['p']] ++ ['/'] <+: ['q', '/', 'p', '/', 'x'] ∧
    ∀ ignores, lineVerdict (rebase (Path.joinParts [['p']]) ['!', '/', '*'])
      ['q', '/', 'p', '/', 'x'] ≠ .ok (some ignores) := by
  have hline : IsMoved ['!', '/', '*'] := isMoved_cons (by decide) (by decide) (by decide)
  have hpath : IsRelative ['q', '/', 'p', '/', 'x'] := ⟨by decide, by decide⟩
  exact ⟨plainParts_top, hline, hpath, by decide, lineVerdict_rebase_outside plainParts_top
    (.inr (.inr ⟨hline, '*', by decide, by decide⟩)) hpath (by decide)⟩

/-- Lines of `p` that reach outside of it: one that begins with an escaped number sign, one with
white space before a number sign, a blank one and a lone mark. -/
theorem lineVerdict_rebase_escapes :
    PlainParts [['p']] ∧
    (∀ path ∈ [['#', 'x'], [' ', '#', 'x'], ['d', '/', 'p', '/', 'x'], ['d', '/', 'p']],
      IsRelative path ∧ path ≠ Path.joinParts [['p']] ∧
        ¬ Path.joinParts [['p']] ++ ['/'] <+: path) ∧
    lineVerdict (rebase (Path.joinParts [['p']]) ['\\', '#', 'x']) ['#', 'x'] = .ok (some true) ∧
    lineVerdict (rebase (Path.joinParts [['p']]) [' ', '#', 'x']) [' ', '#', 'x'] =
      .ok (some true) ∧
    lineVerdict (rebase (Path.joinParts [['p']]) [' ']) ['d', '/', 'p', '/', 'x'] =
      .ok (some true) ∧
    lineVerdict (rebase (Path.joinParts [['p']]) ['!']) ['d', '/', 'p'] = .ok (some false) := by
  refine ⟨plainParts_top, ?_, rfl, rfl, rfl, rfl⟩
  simp only [List.forall_mem_cons, List.not_mem_nil, false_imp_iff, implies_true, and_true,
    IsRelative]
  decide

end CodeHealth.Ignore
