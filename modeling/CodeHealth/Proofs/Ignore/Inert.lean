import CodeHealth.Proofs.Ignore.Rebase

/-!
# Lines that say nothing

An empty line, a comment, white space, a lone slash or an open bracket says nothing about any path.
Moved to the root of the project such a line still says nothing, as long as something that is not
white space is left of it behind its slash.  Otherwise the path of the directory is all that the
moved line holds, and the line that said nothing ignores the whole directory.
-/

namespace CodeHealth.Ignore

variable {parts : List Text} {line path t : Text}

/-! ## Paths of a project -/

/-- A path as a project has it: its components are neither empty nor a dot, and a slash may stand
behind them. -/
def IsProper (path : Text) : Prop :=
  ∃ parts, parts ≠ [] ∧ (∀ s ∈ parts, s ≠ [] ∧ s ≠ ['.']) ∧
    (path.cutAt '/' = parts ∨ path.cutAt '/' = parts ++ [[]])

namespace IsProper

theorem ne_nil (h : IsProper path) : path ≠ [] := by
  rintro rfl
  obtain ⟨parts, hne, hnames, hcut⟩ := h
  have hnil : [] ∉ parts := fun hmem ↦ (hnames [] hmem).1 rfl
  rcases hcut with rfl | hcut
  · exact hnil (by simp [Text.cutAt])
  · exact hne (by simpa [Text.cutAt] using hcut)

theorem isRelative (h : IsProper path) : IsRelative path := by
  obtain ⟨parts, hne, hnames, hcut⟩ := h
  obtain ⟨first, more, rfl⟩ := List.exists_cons_of_ne_nil hne
  obtain ⟨hnil, hdot⟩ := hnames first List.mem_cons_self
  have hfirst : (path.cutAt '/').head? = some first := by
    rcases hcut with hcut | hcut <;> simp [hcut]
  constructor
  · intro hhead
    obtain ⟨rest, rfl⟩ := List.head?_eq_some_iff.mp hhead
    exact hnil (by simpa [Text.cutAt, eq_comm] using hfirst)
  · rintro ⟨rest, rfl⟩
    rw [show ['.', '/'] ++ rest = ['.'] ++ '/' :: rest from rfl, Text.cutAt_append_cons] at hfirst
    exact hdot (by simpa [Text.cutAt, eq_comm] using hfirst)

/-- What follows a directory in a path is a path, unless the path ends with the directory. -/
theorem of_append {base : Text} (h : IsProper (base ++ '/' :: path)) (hne : path ≠ []) :
    IsProper path := by
  obtain ⟨parts, -, hnames, hcut⟩ := h
  rw [Text.cutAt_append_cons] at hcut
  rcases hcut with hcut | hcut
  · refine ⟨path.cutAt '/', Text.cutAt_ne_nil '/' path, fun s hs ↦ hnames s ?_, .inl rfl⟩
    exact hcut ▸ List.mem_append_right _ hs
  · obtain ⟨init, last, hlast⟩ :=
      (List.eq_nil_or_concat' (path.cutAt '/')).resolve_left (Text.cutAt_ne_nil '/' path)
    rw [hlast, ← List.append_assoc] at hcut
    obtain ⟨hinit, hend⟩ := List.append_inj' hcut rfl
    obtain rfl : last = [] := by simpa using hend
    refine ⟨init, ?_, fun s hs ↦ hnames s (hinit ▸ List.mem_append_right _ hs), .inr hlast⟩
    rintro rfl
    exact hne (Text.cutAt_eq_singleton_nil_iff.mp hlast)

end IsProper

theorem isProper_name : IsProper ['a'] :=
  ⟨[['a']], by simp, by simp, .inl rfl⟩

theorem isProper_nested : IsProper ['a', '/', 'b'] :=
  ⟨[['a'], ['b']], by simp, by simp, .inl rfl⟩

/-- The line says nothing about any path. -/
def IsInert (line : Text) : Prop :=
  ∀ path, IsProper path → lineVerdict line path = .ok none

/-! ## Patterns that hit nothing -/

/-- A pattern does not hit, or has an open bracket. -/
def Silent (hit : Except SegmentFault Bool) : Prop :=
  hit = .error .bracket ∨ hit = .ok false

theorem judge_eq_none_iff {ignores : Bool} {hit : Except SegmentFault Bool} :
    judge line ignores hit = .ok none ↔ Silent hit := by
  rcases hit with (_ | _ | _) | (_ | _) <;> simp [judge, Silent]

/-- A glob that is silent does not match. -/
theorem Silent.not_begins {ps : List Piece} (h : Silent ((Matcher.glob ps).outcome path)) :
    ¬ Begins ps path := by
  rw [Matcher.outcome, Matcher.checked] at h
  split at h
  · simp [Silent, Except.map] at h
  · simpa [Silent, Except.map, ← Matcher.hits_glob] using h

/-- So a glob with the same ranges is silent where it does not match. -/
theorem Silent.of_not_begins {ps qs : List Piece} {path' : Text}
    (h : Silent ((Matcher.glob ps).outcome path)) (hranges : reversedRange? qs = reversedRange? ps)
    (hmiss : ¬ Begins qs path') : Silent ((Matcher.glob qs).outcome path') := by
  rwa [Matcher.outcome_glob_congr hranges (iff_of_false hmiss h.not_begins)]

/-- Any depth in front of segments with a text can only add to what they match. -/
theorem Silent.of_anyDepth {directory : Bool} {ss : List Segment} {s : Text} (hs : .text s ∈ ss)
    (hne : path ≠ []) (hhead : path.head? ≠ some '/')
    (h : Silent ((Matcher.ofSegments directory (collapse (.anyDepth :: ss))).bind
      (·.outcome path))) :
    Silent ((Matcher.ofSegments directory (collapse ss)).bind (·.outcome path)) := by
  rcases collapse_of_text_mem hs with ⟨t, rest, heq⟩ | ⟨t, rest, heq⟩
  · rw [collapse, heq, outcome_ofSegments_anyDepth_text hne hhead] at h
    rw [heq, outcome_ofSegments_text]
    cases hps : joinPieces directory false (.text t :: rest) with
    | error e => simpa [hps, Except.bind] using h
    | ok ps =>
      rw [hps] at h
      exact h.of_not_begins rfl fun hbegins ↦ h.not_begins (.inr hbegins)
  · rw [collapse, heq] at h
    rwa [heq]

/-- A pattern is anchored or holds at any depth. -/
theorem segments_lead_append {led : Bool} (ht : t ≠ []) (hled : led = false → t.head? ≠ some '/') :
    segments (lead led ++ t) = collapse (rootedSegments (t.cutAt '/')) ∨
      segments (lead led ++ t) = collapse (.anyDepth :: rootedSegments (t.cutAt '/')) := by
  cases led with
  | true => exact .inl (segments_slash t)
  | false =>
    by_cases hslash : '/' ∈ t.dropLast
    · exact .inl (segments_inner (hled rfl) hslash)
    · exact .inr (segments_unanchored ht (hled rfl) hslash)

theorem silent_patternHits_slash {led : Bool} {s : Text} (hled : led = false → t.head? ≠ some '/')
    (hs : .text s ∈ rootedSegments (t.cutAt '/')) (hpath : IsProper path)
    (h : Silent (patternHits (lead led ++ t) path)) : Silent (patternHits ('/' :: t) path) := by
  have ht := ne_nil_of_text_mem hs
  rw [patternHits, List.getLast?_append_of_ne_nil _ ht] at h
  rw [patternHits_slash ht]
  rcases segments_lead_append ht hled with heq | heq
  · rwa [heq] at h
  · rw [heq] at h
    exact h.of_anyDepth hs hpath.ne_nil hpath.isRelative.1

/-- Without a text, a pattern hits what lies in any directory. -/
theorem patternHits_of_forall_ne_text {led : Bool} (ht : t ≠ [])
    (hled : led = false → t.head? ≠ some '/') (hs : ∀ s, .text s ∉ rootedSegments (t.cutAt '/')) :
    patternHits (lead led ++ t) ['a', '/', 'b'] = .ok true := by
  have hroot := rootedSegments_ne_nil (Text.cutAt_ne_nil '/' t)
  have hsegments : segments (lead led ++ t) = [.anyDepth] := by
    rcases segments_lead_append ht hled with heq | heq
    · rw [heq, collapse_of_forall_ne_text hroot hs]
    · rw [heq, collapse_of_forall_ne_text (List.cons_ne_nil _ _)]
      simpa using hs
  rw [patternHits, hsegments, Matcher.ofSegments]
  split <;> rfl

/-- A pattern that hits nothing anchored hits nothing behind the path of a directory. -/
theorem silent_patternHits_append {s : Text} (hbase : PlainParts parts) (led : Bool)
    (hs : .text s ∈ rootedSegments (t.cutAt '/'))
    (h : ∀ path, IsProper path → Silent (patternHits ('/' :: t) path)) (hpath : IsProper path) :
    Silent (patternHits (lead led ++ (Path.joinParts parts ++ '/' :: t)) path) := by
  have hbelow {u : Text} (hu : IsProper u) : Silent (patternHits
      (lead led ++ (Path.joinParts parts ++ '/' :: t)) (Path.joinParts parts ++ '/' :: u)) := by
    rw [patternHits_below_of_text hbase led hs hu.ne_nil hu.isRelative.1]
    exact h u hu
  have hss := collapse_ne_nil (rootedSegments_ne_nil (Text.cutAt_ne_nil '/' t))
  simp only [hbase.patternHits_append led (ne_nil_of_text_mem hs),
    outcome_ofSegments_texts_append hbase.ne_nil hbase.plain _ hss] at hbelow ⊢
  cases hps : joinPieces (t.getLast? == some '/') true
      (collapse (rootedSegments (t.cutAt '/'))) with
  | error e => simpa [hps, Except.bind] using hbelow isProper_name
  | ok ps =>
    rw [hps] at hbelow
    have hmiss {u : Text} (hu : IsProper u) : ¬ Begins ps ('/' :: u) := fun hbegins ↦
      (hbelow hu).not_begins (begins_literal_append_iff.mpr ⟨_, rfl, hbegins⟩)
    refine (hbelow isProper_name).of_not_begins rfl ?_
    rw [begins_literal_append_iff]
    rintro ⟨rest, rfl, hrest⟩
    obtain ⟨u, rfl⟩ := List.head?_eq_some_iff.mp (head?_of_begins_joinPieces hss hps hrest)
    by_cases hnil : u = []
    · -- What matches the directory with a slash behind it matches something in it.
      subst hnil
      refine hmiss isProper_name (begins_joinPieces_singleton (by decide) ?_ hps hrest)
      rw [getLast?_collapse]
      exact getLast?_rootedSegments_ne _
    · exact hmiss (hpath.of_append hnil) hrest

/-! ## Lines that stay inert -/

theorem head?_trimLine_coreOf_ne (hcore : trimLine (coreOf line) ≠ []) (hled : isLed line = false) :
    (trimLine (coreOf line)).head? ≠ some '/' := by
  have heq : coreOf line = patternOf line := by simp [coreOf, hled]
  rw [head?_trimLine hcore, heq]
  simpa [isLed] using hled

theorem isInert_iff (hline : IsMoved line) (hcore : trimLine (coreOf line) ≠ []) :
    IsInert line ↔ ∀ path, IsProper path →
      Silent (patternHits (lead (isLed line) ++ trimLine (coreOf line)) path) := by
  have hbody : trimLine (patternOf line) ≠ [] := by simp [trimLine_patternOf, hcore]
  have hslash : trimLine (patternOf line) ≠ ['/'] := by
    rw [trimLine_patternOf]
    cases hled : isLed line with
    | true => simpa [lead] using hcore
    | false =>
      intro heq
      refine head?_trimLine_coreOf_ne hcore hled ?_
      rw [show trimLine (coreOf line) = ['/'] from heq]
      rfl
  refine forall₂_congr fun path hpath ↦ ?_
  rw [lineVerdict_eq hline.head?_ne hbody hslash, judge_eq_none_iff, trimLine_patternOf,
    normalPath_eq_self hpath.isRelative]

theorem isInert_rebase_iff (hbase : PlainParts parts) (hline : IsMoved line)
    (hcore : trimLine (coreOf line) ≠ []) :
    IsInert (rebase (Path.joinParts parts) line) ↔ ∀ path, IsProper path →
      Silent (patternHits
        (lead (isLed line) ++ (Path.joinParts parts ++ '/' :: trimLine (coreOf line))) path) := by
  refine forall₂_congr fun path hpath ↦ ?_
  rw [lineVerdict_rebase hbase hline hcore, judge_eq_none_iff, normalPath_eq_self hpath.isRelative]

theorem IsInert.rebase_of_isMoved (hinert : IsInert line) (hbase : PlainParts parts)
    (hline : IsMoved line) (hcore : trimLine (coreOf line) ≠ []) :
    IsInert (rebase (Path.joinParts parts) line) := by
  have hled := head?_trimLine_coreOf_ne hcore
  rw [isInert_iff hline hcore] at hinert
  by_cases htext : ∃ s, .text s ∈ rootedSegments ((trimLine (coreOf line)).cutAt '/')
  · obtain ⟨s, hs⟩ := htext
    rw [isInert_rebase_iff hbase hline hcore]
    intro path hpath
    refine silent_patternHits_append hbase (isLed line) hs (fun path hpath ↦ ?_) hpath
    exact silent_patternHits_slash hled hs hpath (hinert path hpath)
  · have hhit := patternHits_of_forall_ne_text hcore hled (not_exists.mp htext)
    have hsilent := hinert _ isProper_nested
    simp [hhit, Silent] at hsilent

theorem rebase_of_not_isMoved (base : Text) (h : ¬ IsMoved line) : rebase base line = line := by
  rw [rebase, if_pos]
  by_contra hmoved
  simp only [Bool.or_eq_true, List.isEmpty_iff, beq_iff_eq, List.isPrefixOf_iff_prefix,
    not_or] at hmoved
  exact h ⟨hmoved.1.1.1.2, hmoved.1.1.2, hmoved.1.2, hmoved.2⟩

theorem IsInert.rebase_of_not_isBlank {c : Char} (hinert : IsInert line) (hbase : PlainParts parts)
    (hc : c ∈ coreOf line) (hblank : Text.isBlank c = false) :
    IsInert (rebase (Path.joinParts parts) line) := by
  by_cases hline : IsMoved line
  · exact hinert.rebase_of_isMoved hbase hline (trimLine_ne_nil hblank hc)
  · rwa [rebase_of_not_isMoved _ hline]

/-! ## Lines that come to ignore their directory -/

/-- The segments of a path, with something behind them that takes a slash, hit what lies below the
path; so they do with any depth in front. -/
theorem outcome_of_joinPieces {directory : Bool} {ss : List Segment} {last : Piece}
    (hparts : parts ≠ [])
    (hjoin : joinPieces directory false (parts.map .text ++ ss) = .ok (literal t ++ [last]))
    (hrange : reversedRange? [last] = none)
    (hlast : Begins [last] ('/' :: path)) (hhead : (t ++ '/' :: path).head? ≠ some '/') :
    (Matcher.ofSegments directory (parts.map .text ++ ss)).bind (·.outcome (t ++ '/' :: path)) =
      .ok true ∧
    (Matcher.ofSegments directory (.anyDepth :: (parts.map .text ++ ss))).bind
        (·.outcome (t ++ '/' :: path)) =
      .ok true := by
  have hbegins : Begins (literal t ++ [last]) (t ++ '/' :: path) :=
    begins_literal_append_iff.mpr ⟨_, rfl, hlast⟩
  have hranges : reversedRange? (literal t ++ [last]) = none := by
    rw [reversedRange?_literal_append, hrange]
  obtain ⟨name, more, rfl⟩ := List.exists_cons_of_ne_nil hparts
  rw [List.map_cons, List.cons_append] at hjoin ⊢
  constructor
  · rw [outcome_ofSegments_text, hjoin]
    exact Matcher.outcome_eq_true hranges hbegins
  · rw [outcome_ofSegments_anyDepth_text (by simp) hhead, hjoin]
    have hdeep : Begins (.leading :: (literal t ++ [last])) (t ++ '/' :: path) := .inr hbegins
    exact Matcher.outcome_eq_true hranges hdeep

namespace PlainParts

variable (h : PlainParts parts) (path : Text)

include h

theorem collapse_rootedSegments : collapse (rootedSegments parts) = parts.map .text := by
  obtain ⟨init, last, rfl⟩ := (List.eq_nil_or_concat' parts).resolve_left h.ne_nil
  have hlast : last ≠ [] := h.nonempty last (by simp)
  have hroot : rootedSegments (init ++ [last]) = (init ++ [last]).map .text := by
    rw [rootedSegments_append init (by simp), ← h.map_ofText, List.map_append, rootedSegments]
    · rfl
    · exact fun hnil ↦ absurd hnil hlast
  rw [hroot, ← List.append_nil (List.map _ _), collapse_texts_append]
  rfl

/-- The path of a directory as a pattern hits what lies in the directory. -/
theorem patternHits_self :
    patternHits ('/' :: Path.joinParts parts) (Path.joinParts parts ++ '/' :: path) = .ok true := by
  have hfinish : Begins [.finish] ('/' :: path) := .inl ⟨path, rfl, trivial⟩
  rw [patternHits_slash h.joinParts_ne_nil, h.cutAt_joinParts, h.collapse_rootedSegments,
    ← List.append_nil (List.map _ _)]
  refine (outcome_of_joinPieces h.ne_nil ?_ rfl hfinish (h.isRelative_append path).1).1
  rw [List.append_nil]
  exact joinPieces_texts false h.ne_nil h.plain

/-- So it does with a slash behind it. -/
theorem patternHits_inside (led : Bool) :
    patternHits (lead led ++ (Path.joinParts parts ++ ['/'])) (Path.joinParts parts ++ '/' :: path) =
      .ok true := by
  have hrooted : rootedSegments ((Path.joinParts parts ++ ['/']).cutAt '/') =
      parts.map .text ++ [.anyDepth] := by
    rw [Text.cutAt_append_cons, h.cutAt_joinParts,
      rootedSegments_append parts (by simp [Text.cutAt]), h.map_ofText]
    rfl
  have hcollapse : collapse (parts.map .text ++ [.anyDepth]) = parts.map .text ++ [.anyDepth] :=
    collapse_texts_append parts [.anyDepth]
  have hjoin (directory : Bool) : joinPieces directory false (parts.map .text ++ [.anyDepth]) =
      .ok (literal (Path.joinParts parts) ++ [.slash directory]) := by
    rw [joinPieces_texts_append false h.ne_nil h.plain (by simp)]
    rfl
  have hhits (directory : Bool) := outcome_of_joinPieces h.ne_nil (hjoin directory) rfl
    ⟨path, rfl, trivial⟩ (h.isRelative_append path).1
  rw [patternHits]
  have hhead (_ : led = false) : (Path.joinParts parts ++ ['/']).head? ≠ some '/' :=
    (h.isRelative_append []).1
  rcases segments_lead_append (by simp) hhead with heq | heq
  · rw [heq, hrooted, hcollapse]
    exact (hhits _).1
  · have hfront : collapse (.anyDepth :: (parts.map .text ++ [.anyDepth])) =
        .anyDepth :: (parts.map .text ++ [.anyDepth]) := by
      obtain ⟨name, more, rfl⟩ := List.exists_cons_of_ne_nil h.ne_nil
      rw [collapse, hcollapse]
      rfl
    rw [heq, hrooted, hfront]
    exact (hhits _).2

end PlainParts

/-- The rest of a line behind its mark and slash is white space. -/
def IsBlankRest (line : Text) : Prop :=
  ∀ c ∈ coreOf line, Text.isBlank c = true

/-- With a mark, such a line is not understood or includes what lies in any directory. -/
theorem IsInert.isNegated_eq_false (hinert : IsInert line) (hblank : IsBlankRest line) :
    isNegated line = false := by
  by_contra hmark
  rw [Bool.not_eq_false] at hmark
  have htrim : trimLine (patternOf line) = lead (isLed line) := by
    rw [trimLine_patternOf, trimLine_of_forall_isBlank hblank, List.append_nil]
  have hline : mark true ++ patternOf line = line := hmark ▸ mark_append_patternOf line
  have hsaid := hinert _ isProper_nested
  cases hled : isLed line with
  | true =>
    have hne : trimLine (patternOf line) ≠ [] := by simp [htrim, hled, lead]
    have hverdict := lineVerdict_mark_append hne (fun h : true = false ↦ absurd h (by decide))
      ['a', '/', 'b']
    rw [hline, htrim, hled, hsaid] at hverdict
    cases hverdict
  | false =>
    have hparse : Pattern.parse line = .error (.invalid line) := by
      have hself : trimLine line = ['!'] := by
        rw [← hline, trimLine_mark_append, htrim, hled]
        rfl
      simp [Pattern.parse, hself]
    rw [lineVerdict, patterns, hparse] at hsaid
    cases hsaid

theorem IsBlankRest.isMoved (hblank : IsBlankRest line) (hmark : isNegated line = false)
    (hne : line ≠ []) : IsMoved line := by
  have hself : lead (isLed line) ++ coreOf line = line := by
    rw [lead_append_coreOf, patternOf, hmark, if_neg (by decide)]
  cases hled : isLed line with
  | true =>
    rw [hled] at hself
    rw [← hself]
    exact isMoved_cons (by decide) (by decide) (by decide)
  | false =>
    rw [hled] at hself
    have hall : ∀ c ∈ line, Text.isBlank c = true := by
      intro c hc
      exact hblank c (by rwa [show coreOf line = line from hself])
    have hesc : '\\' ∉ line := fun hmem ↦ absurd (hall _ hmem) (by decide)
    refine ⟨hne, ?_, fun hprefix ↦ hesc ?_, fun hprefix ↦ hesc ?_⟩
    · rw [Text.trimLeft, List.dropWhile_eq_nil_iff.mpr hall]
      simp
    · exact hprefix.subset (by simp)
    · exact hprefix.subset (by simp)

theorem lineVerdict_rebase_slash (hbase : PlainParts parts)
    (hspace : ∀ c ∈ Path.joinParts parts, Text.isBlank c = false) (path : Text) :
    lineVerdict (rebase (Path.joinParts parts) ['/']) (Path.joinParts parts ++ '/' :: path) =
      .ok (some true) := by
  have hrebase : rebase (Path.joinParts parts) ['/'] = mark false ++ '/' :: Path.joinParts parts := by
    simp [rebase, hbase.joinParts_ne_nil, mark, Text.trimLeft, show Text.isBlank '/' = false by decide]
  have htrim : trimLine ('/' :: Path.joinParts parts) = '/' :: Path.joinParts parts := by
    obtain ⟨init, c, heq⟩ :=
      (List.eq_nil_or_concat' (Path.joinParts parts)).resolve_left hbase.joinParts_ne_nil
    rw [heq]
    exact trimLine_concat ('/' :: init) (hspace c (by simp [heq]))
  rw [hrebase, lineVerdict_mark_append (by simp [htrim]), htrim,
    normalPath_eq_self (hbase.isRelative_append path), hbase.patternHits_self]
  · rfl
  · simp [htrim, hbase.joinParts_ne_nil]

/-- Moved, a line with nothing but white space behind its slash ignores the whole directory. -/
theorem IsBlankRest.lineVerdict_rebase (hblank : IsBlankRest line) (hmark : isNegated line = false)
    (hne : line ≠ []) (hbase : PlainParts parts)
    (hspace : ∀ c ∈ Path.joinParts parts, Text.isBlank c = false) (path : Text) :
    lineVerdict (rebase (Path.joinParts parts) line) (Path.joinParts parts ++ '/' :: path) =
      .ok (some true) := by
  by_cases hnil : coreOf line = []
  · have hself : lead (isLed line) = line := by
      rw [← List.append_nil (lead _), ← hnil, lead_append_coreOf, patternOf, hmark,
        if_neg (by decide)]
    have hled : isLed line = true := by
      by_contra hled
      exact hne (by rw [← hself, lead, if_neg hled])
    rw [← hself, hled]
    exact lineVerdict_rebase_slash hbase hspace path
  · rw [lineVerdict_rebase_of_ne_nil hbase (hblank.isMoved hmark hne) hnil,
      trimLine_of_forall_isBlank hblank, normalPath_eq_self (hbase.isRelative_append path),
      hbase.patternHits_inside, hmark]
    rfl

/-- A line that says nothing still says nothing when it is moved, unless only white space is left
of it behind its slash; then it ignores the whole directory. -/
theorem isInert_rebase_unless_blank (hbase : PlainParts parts) (hinert : IsInert line) :
    (line = [] ∨ ¬ IsBlankRest line → IsInert (rebase (Path.joinParts parts) line)) ∧
    ((∀ c ∈ Path.joinParts parts, Text.isBlank c = false) → line ≠ [] → IsBlankRest line →
      ∀ path, lineVerdict (rebase (Path.joinParts parts) line) (Path.joinParts parts ++ '/' :: path) =
        .ok (some true)) := by
  constructor
  · rintro (rfl | hblank)
    · rwa [rebase_of_not_isMoved _ fun hline ↦ hline.ne_nil rfl]
    · obtain ⟨c, hc, hc'⟩ : ∃ c ∈ coreOf line, Text.isBlank c = false := by
        simpa [IsBlankRest] using hblank
      exact hinert.rebase_of_not_isBlank hbase hc hc'
  · intro hspace hne hblank path
    exact hblank.lineVerdict_rebase (hinert.isNegated_eq_false hblank) hne hbase hspace path

/-- In `p/q`, the open bracket `[a` says nothing, and a slash with a blank behind it ignores
everything. -/
theorem isInert_rebase_unless_blank_nested :
    PlainParts [['p'], ['q']] ∧ IsInert ['[', 'a'] ∧ IsInert ['/', ' '] ∧
    IsInert (rebase (Path.joinParts [['p'], ['q']]) ['[', 'a']) ∧
    lineVerdict (rebase (Path.joinParts [['p'], ['q']]) ['/', ' '])
      (Path.joinParts [['p'], ['q']] ++ '/' :: ['x']) = .ok (some true) := by
  have hbracket : IsInert ['[', 'a'] := fun _ _ ↦ rfl
  have hslash : IsInert ['/', ' '] := fun _ _ ↦ rfl
  refine ⟨plainParts_nested, hbracket, hslash, ?_, ?_⟩
  · refine (isInert_rebase_unless_blank plainParts_nested hbracket).1 (.inr fun hblank ↦ ?_)
    exact absurd (hblank 'a' (by decide)) (by decide)
  · have hspace : ∀ c ∈ ['p', '/', 'q'], Text.isBlank c = false := by
      simp only [List.forall_mem_cons, List.not_mem_nil, false_imp_iff, implies_true, and_true]
      decide
    refine (isInert_rebase_unless_blank plainParts_nested hslash).2 hspace (by decide) ?_ ['x']
    exact List.forall_mem_singleton.mpr (by decide)

/-- A blank and a lone slash say nothing, but moved from `p` they ignore `p/x`. -/
theorem isInert_rebase_fails :
    PlainParts [['p']] ∧ IsProper (Path.joinParts [['p']] ++ '/' :: ['x']) ∧
    ∀ line ∈ [[' '], ['/']], IsInert line ∧
      lineVerdict (rebase (Path.joinParts [['p']]) line) (Path.joinParts [['p']] ++ '/' :: ['x']) =
        .ok (some true) := by
  refine ⟨plainParts_top, ⟨[['p'], ['x']], by simp, by simp, .inl rfl⟩, ?_⟩
  simp only [List.forall_mem_cons, List.not_mem_nil, false_imp_iff, implies_true, and_true]
  exact ⟨⟨fun _ _ ↦ rfl, rfl⟩, ⟨fun _ _ ↦ rfl, rfl⟩⟩

end CodeHealth.Ignore
