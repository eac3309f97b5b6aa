import CodeHealth.Ignore.Pattern
import CodeHealth.Proofs.Except
import CodeHealth.Proofs.Ignore.Glob
import CodeHealth.Proofs.Project.Path

/-!
# How a pattern is read

A pattern is cut at its slashes into segments, and the segments give the pieces of a glob.  This
file says which segments a pattern has, by whether it is anchored at its directory, and what matches
the segments of a directory followed by others: just below the directory, what matches the others.
-/

namespace CodeHealth.Ignore

/-! ## Segments -/

/-- The segments of the parts of an anchored pattern. An empty part at the end asks for something
inside. -/
def rootedSegments : List Text → List Segment
  | [] => []
  | [[]] => [.anyDepth]
  | part :: rest => .ofText part :: rootedSegments rest

theorem rootedSegments_append {parts : List Text} (front : List Text) (h : parts ≠ []) :
    rootedSegments (front ++ parts) = front.map .ofText ++ rootedSegments parts := by
  induction front with
  | nil => rfl
  | cons part front ih =>
    have hne : front ++ parts ≠ [] := by simp [h]
    rw [List.cons_append, rootedSegments, ih, List.map_cons, List.cons_append]
    exact fun _ heq ↦ hne heq

theorem rootedSegments_ne_nil {parts : List Text} (h : parts ≠ []) : rootedSegments parts ≠ [] := by
  fun_cases rootedSegments parts with
  | case1 => exact absurd rfl h
  | case2 => simp
  | case3 => simp

theorem getLast?_rootedSegments_ne (parts : List Text) :
    (rootedSegments parts).getLast? ≠ some (.text []) := by
  fun_induction rootedSegments parts with
  | case1 => simp
  | case2 => simp
  | case3 part rest hlast ih =>
    rw [List.getLast?_cons]
    cases hrest : (rootedSegments rest).getLast? with
    | none =>
      have hnil : rest = [] := by
        by_contra hne
        exact rootedSegments_ne_nil hne (List.getLast?_eq_none_iff.mp hrest)
      intro heq
      have hpart : Segment.ofText part = .text [] := by simpa using heq
      rw [Segment.ofText] at hpart
      split at hpart
      · cases hpart
      · exact hlast (by simpa using hpart) hnil
    | some last => simpa [hrest] using ih

/-- A part of a pattern, or nothing for any depth. -/
def Segment.ofPart : Option Text → Segment
  | none => .anyDepth
  | some part => .ofText part

/-- The segments of parts, an empty one at the end standing for any depth. -/
def closedSegments (parts : List (Option Text)) : List Segment :=
  let last := match parts.getLast? with
    | some (some []) => parts.dropLast ++ [none]
    | _ => parts
  last.map .ofPart

theorem closedSegments_append {parts : List Text} (front : List (Option Text)) (h : parts ≠ []) :
    closedSegments (front ++ parts.map some) = front.map .ofPart ++ rootedSegments parts := by
  obtain ⟨init, last, rfl⟩ := (List.eq_nil_or_concat' parts).resolve_left h
  rw [rootedSegments_append init (by simp)]
  cases last with
  | nil => simp [closedSegments, rootedSegments, Segment.ofPart]
  | cons c last => simp [closedSegments, rootedSegments, Segment.ofPart]

variable {t : Text}

theorem segments_eq {parts : List Text} (front : List (Option Text)) (h : parts ≠ [])
    (heq : (match t.cutAt '/' with
      | [] :: rest => rest.map some
      | [_] | [_, []] => none :: (t.cutAt '/').map some
      | _ => (t.cutAt '/').map some) = front ++ parts.map some) :
    segments t = collapse (front.map .ofPart ++ rootedSegments parts) := by
  rw [← closedSegments_append front h, ← heq]
  rfl

/-- A slash at the start anchors a pattern. -/
theorem segments_slash (t : Text) :
    segments ('/' :: t) = collapse (rootedSegments (t.cutAt '/')) :=
  segments_eq [] (Text.cutAt_ne_nil '/' t) rfl

/-- So does a slash that something comes before and something behind. -/
theorem segments_inner (hhead : t.head? ≠ some '/') (h : '/' ∈ t.dropLast) :
    segments t = collapse (rootedSegments (t.cutAt '/')) := by
  refine segments_eq [] (Text.cutAt_ne_nil '/' t) ?_
  -- Cut at the first slash: the parts are neither led by an empty one nor one with an end.
  obtain ⟨first, more, hinit, hfirst⟩ := List.eq_append_cons_of_mem h
  have hne : t ≠ [] := by
    rintro rfl
    exact List.not_mem_nil h
  obtain ⟨rest, hrest, rfl⟩ : ∃ rest : Text, rest ≠ [] ∧ t = first ++ '/' :: rest := by
    refine ⟨more ++ [t.getLast hne], by simp, ?_⟩
    rw [← List.cons_append, ← List.append_assoc, ← hinit, List.dropLast_concat_getLast]
  have hcut : rest.cutAt '/' ≠ [[]] := mt Text.cutAt_eq_singleton_nil_iff.mp hrest
  rw [Text.cutAt_append_cons, Text.cutAt_of_notMem hfirst]
  cases first with
  | nil => exact absurd rfl hhead
  | cons c first =>
    match hparts : rest.cutAt '/' with
    | [] => exact absurd hparts (Text.cutAt_ne_nil '/' rest)
    | [[]] => exact absurd hparts hcut
    | [_ :: _] => rfl
    | [] :: _ :: _ => rfl
    | (_ :: _) :: _ :: _ => rfl

/-- A pattern without such slashes holds at any depth. -/
theorem segments_unanchored (ht : t ≠ []) (hhead : t.head? ≠ some '/') (h : '/' ∉ t.dropLast) :
    segments t = collapse (.anyDepth :: rootedSegments (t.cutAt '/')) := by
  refine segments_eq [none] (Text.cutAt_ne_nil '/' t) ?_
  obtain ⟨init, last, rfl⟩ := (List.eq_nil_or_concat' t).resolve_left ht
  rw [List.dropLast_concat] at h
  by_cases hlast : last = '/'
  · subst hlast
    cases init with
    | nil => exact absurd rfl hhead
    | cons c init =>
      rw [Text.cutAt_append_cons, Text.cutAt_of_notMem h]
      rfl
  · have hmem : '/' ∉ init ++ [last] := by simp [h, Ne.symm hlast]
    rw [Text.cutAt_of_notMem hmem]
    cases init <;> rfl

theorem collapse_texts_append (parts : List Text) (ss : List Segment) :
    collapse (parts.map .text ++ ss) = parts.map .text ++ collapse ss := by
  induction parts with
  | nil => rfl
  | cons part parts ih => simp [collapse, ih]

theorem collapse_ne_nil {ss : List Segment} (h : ss ≠ []) : collapse ss ≠ [] := by
  fun_cases collapse ss with
  | case1 => simp
  | case2 => simp
  | case3 => simp
  | case4 => exact absurd rfl h

theorem getLast?_collapse (ss : List Segment) : (collapse ss).getLast? = ss.getLast? := by
  induction ss with
  | nil => rfl
  | cons s ss ih =>
    cases s with
    | text t => simp [collapse, List.getLast?_cons, ih]
    | anyDepth =>
      rw [List.getLast?_cons, ← ih, collapse]
      split
      · next more heq => simp [heq, List.getLast?_cons]
      · simp [List.getLast?_cons]

theorem collapse_of_forall_ne_text {ss : List Segment} (hne : ss ≠ []) (h : ∀ t, .text t ∉ ss) :
    collapse ss = [.anyDepth] := by
  induction ss with
  | nil => exact absurd rfl hne
  | cons s ss ih =>
    cases s with
    | text t => exact absurd List.mem_cons_self (h t)
    | anyDepth =>
      by_cases hnil : ss = []
      · simp [hnil, collapse]
      · have hrest := ih hnil fun t ht ↦ h t (List.mem_cons_of_mem _ ht)
        simp [collapse, hrest]

/-- Where there is a text, the first one comes at once or right behind any depth. -/
theorem collapse_of_text_mem {ss : List Segment} {s : Text} (h : .text s ∈ ss) :
    (∃ t rest, collapse ss = .text t :: rest) ∨
      ∃ t rest, collapse ss = .anyDepth :: .text t :: rest := by
  induction ss with
  | nil => exact absurd h List.not_mem_nil
  | cons first ss ih =>
    cases first with
    | text t => exact .inl ⟨t, collapse ss, by simp [collapse]⟩
    | anyDepth =>
      rcases ih (by simpa using h) with ⟨t, rest, heq⟩ | ⟨t, rest, heq⟩
      · exact .inr ⟨t, rest, by simp [collapse, heq]⟩
      · exact .inr ⟨t, rest, by simp [collapse, heq]⟩

/-! ## Pieces of segments -/

variable {directory : Bool} {rest : List Segment}

/-- The pieces for the text of a segment. A lone asterisk asks for a character. -/
def componentPieces (t : Text) : Except SegmentFault (List Piece) :=
  if t = ['*'] then .ok [.one, .many] else segmentPieces 0 t

theorem plainPieces_eq (needsSlash isLast : Bool) (t : Text) :
    plainPieces needsSlash isLast t = (componentPieces t).map fun glob ↦
      (if needsSlash then [.slash false] else []) ++ glob ++ if isLast then [.finish] else [] := by
  by_cases ht : t = ['*']
  · simp only [plainPieces, componentPieces, ht, beq_self_eq_true, if_true]
    rfl
  · simp only [plainPieces, componentPieces, ht, beq_iff_eq, if_false]
    cases segmentPieces 0 t <;> rfl

theorem joinPieces_text (needsSlash : Bool) :
    joinPieces directory needsSlash (.text t :: rest) =
      (componentPieces t).bind fun glob ↦ (joinPieces directory true rest).map fun ps ↦
        (if needsSlash then [.slash false] else []) ++ glob ++
          (if rest.isEmpty then [.finish] else []) ++ ps := by
  rw [joinPieces, plainPieces_eq]
  cases componentPieces t with
  | error e => rfl
  | ok glob => cases joinPieces directory true rest <;> rfl

theorem joinPieces_anyDepth (needsSlash : Bool) (h : rest ≠ []) :
    joinPieces directory needsSlash (.anyDepth :: rest) =
      (joinPieces directory true rest).map (.inner :: ·) := by
  rw [joinPieces]
  · cases joinPieces directory true rest <;> rfl
  · simpa using h

theorem joinPieces_true_text :
    joinPieces directory true (.text t :: rest) =
      (joinPieces directory false (.text t :: rest)).map (.slash false :: ·) := by
  rw [joinPieces_text, joinPieces_text]
  cases componentPieces t with
  | error e => rfl
  | ok glob => cases joinPieces directory true rest <;> rfl

theorem joinPieces_text_eq_ok {ps : List Piece}
    (h : joinPieces directory true (.text t :: rest) = .ok ps) :
    ∃ glob more, componentPieces t = .ok glob ∧ joinPieces directory true rest = .ok more ∧
      ps = .slash false :: (glob ++ ((if rest.isEmpty then [.finish] else []) ++ more)) := by
  rw [joinPieces_text] at h
  cases hglob : componentPieces t with
  | error e => simp [hglob, Except.bind] at h
  | ok glob =>
    rw [hglob] at h
    obtain ⟨more, hmore, rfl⟩ := Except.map_eq_ok_iff.mp h
    exact ⟨glob, more, rfl, hmore, by simp⟩

/-- Behind other segments, pieces begin with a slash. -/
theorem head?_of_begins_joinPieces {ss : List Segment} {ps : List Piece} {path : Text}
    (hss : ss ≠ []) (h : joinPieces directory true ss = .ok ps) (hpath : Begins ps path) :
    path.head? = some '/' := by
  induction ss generalizing ps path with
  | nil => exact absurd rfl hss
  | cons s rest ih =>
    cases s with
    | text t =>
      rw [joinPieces_true_text] at h
      obtain ⟨qs, -, rfl⟩ := Except.map_eq_ok_iff.mp h
      obtain ⟨u, rfl, -⟩ := hpath
      rfl
    | anyDepth =>
      by_cases hrest : rest = []
      · subst hrest
        obtain rfl : [.slash directory] = ps := by simpa [joinPieces] using h
        obtain ⟨u, rfl, -⟩ := hpath
        rfl
      · rw [joinPieces_anyDepth true hrest] at h
        obtain ⟨qs, hqs, rfl⟩ := Except.map_eq_ok_iff.mp h
        rcases hpath with ⟨_, _, rfl, -⟩ | hpath
        · rfl
        · exact ih hrest hqs hpath

/-! ### A single component -/

theorem forall_mem_of_cons_eq_ok {P : Piece → Prop} {p : Piece} {ps : List Piece}
    {x : Except SegmentFault (List Piece)} (h : (do return p :: (← x)) = .ok ps) (hp : P p)
    (hx : ∀ {qs}, x = .ok qs → ∀ q ∈ qs, P q) : ∀ q ∈ ps, P q := by
  obtain ⟨qs, hqs, rfl⟩ := Except.map_eq_ok_iff.mp h
  exact List.forall_mem_cons.mpr ⟨hp, hx hqs⟩

theorem inComponent_of_mem_segmentPieces {skip : Nat} {ps : List Piece}
    (h : segmentPieces skip t = .ok ps) : ∀ p ∈ ps, p.InComponent := by
  fun_induction segmentPieces skip t generalizing ps with
  | case1 => simp_all
  | case2 c rest n ih => exact ih h
  | case3 c rest _ ih => exact forall_mem_of_cons_eq_ok h trivial ih
  | case4 c rest _ _ ih => exact forall_mem_of_cons_eq_ok h trivial ih
  | case5 => cases h
  | case6 c _ _ _ x rest ih => exact forall_mem_of_cons_eq_ok h trivial ih
  | case7 => cases h
  | case8 c rest _ _ _ _ k size _ ih => exact forall_mem_of_cons_eq_ok h trivial ih
  | case9 c rest _ _ _ _ ih => exact forall_mem_of_cons_eq_ok h trivial ih

theorem cons_ne_ok_nil (p : Piece) (x : Except SegmentFault (List Piece)) :
    (do return p :: (← x)) ≠ Except.ok [] := by
  intro h
  obtain ⟨ps, -, heq⟩ := Except.map_eq_ok_iff.mp h
  exact List.cons_ne_nil _ _ heq

theorem segmentPieces_ne_nil (ht : t ≠ []) : segmentPieces 0 t ≠ .ok [] := by
  obtain ⟨c, t, rfl⟩ := List.exists_cons_of_ne_nil ht
  unfold segmentPieces
  dsimp only
  split
  · exact cons_ne_ok_nil .many _
  split
  · exact cons_ne_ok_nil .one _
  split
  · cases t with
    | nil => nofun
    | cons x t => exact cons_ne_ok_nil (.char x) _
  split
  · cases bracket? t with
    | none => nofun
    | some k => exact cons_ne_ok_nil (.oneOf k.1) _
  · exact cons_ne_ok_nil (.char c) _

theorem inComponent_of_mem_componentPieces {ps : List Piece} (h : componentPieces t = .ok ps) :
    ∀ p ∈ ps, p.InComponent := by
  rw [componentPieces] at h
  split at h
  · obtain rfl : [.one, .many] = ps := by simpa using h
    simp [Piece.InComponent]
  · exact inComponent_of_mem_segmentPieces h

theorem componentPieces_ne_nil (ht : t ≠ []) : componentPieces t ≠ .ok [] := by
  rw [componentPieces]
  split
  · simp
  · exact segmentPieces_ne_nil ht

/-- Segments that match a slash alone match it with a name behind it as well. -/
theorem begins_joinPieces_singleton {ss : List Segment} {ps : List Piece} {c : Char} (hc : c ≠ '/')
    (hss : ss.getLast? ≠ some (.text [])) (h : joinPieces directory true ss = .ok ps)
    (hpath : Begins ps ['/']) : Begins ps ['/', c] := by
  induction ss generalizing ps with
  | nil =>
    obtain rfl : [] = ps := by simpa [joinPieces] using h
    trivial
  | cons s rest ih =>
    cases s with
    | anyDepth =>
      by_cases hrest : rest = []
      · subst hrest
        obtain rfl : [.slash directory] = ps := by simpa [joinPieces] using h
        exact ⟨[c], rfl, trivial⟩
      · rw [joinPieces_anyDepth true hrest] at h
        obtain ⟨qs, hqs, rfl⟩ := Except.map_eq_ok_iff.mp h
        rw [List.getLast?_cons_of_ne_nil hrest] at hss
        rcases hpath with ⟨s, more, heq, hs, -⟩ | hpath
        · simp_all
        · exact .inr (ih hss hqs hpath)
    | text t =>
      obtain ⟨glob, more, hglob, hmore, rfl⟩ := joinPieces_text_eq_ok h
      have hcomponent := inComponent_of_mem_componentPieces hglob
      rw [begins_slash_cons] at hpath ⊢
      by_cases hrest : rest = []
      · have ht : t ≠ [] := by
          rintro rfl
          exact hss (by simp [hrest])
        have hnil : glob ≠ [] := by
          rintro rfl
          exact componentPieces_ne_nil ht hglob
        exact begins_component_singleton hcomponent hnil hc hpath
      · -- What comes behind the component would take a second slash.
        have hend := begins_of_manys_append_nil (eq_many_of_begins_nil hcomponent hpath) hpath
        have hempty : rest.isEmpty = false := by simp [hrest]
        simp only [hempty, Bool.false_eq_true, if_false, List.nil_append] at hend
        cases head?_of_begins_joinPieces hrest hmore hend

/-- The characters that stand for something else in a glob. -/
def globMarks : List Char := ['*', '?', '[', '\\']

theorem segmentPieces_plain (ht : ∀ c ∈ t, c ∉ globMarks) :
    segmentPieces 0 t = .ok (t.map .char) := by
  induction t with
  | nil => rfl
  | cons c t ih =>
    obtain ⟨hc, ht⟩ := List.forall_mem_cons.mp ht
    have hmarks : c ≠ '*' ∧ c ≠ '?' ∧ c ≠ '[' ∧ c ≠ '\\' := by simpa [globMarks] using hc
    simp [segmentPieces, hmarks, ih ht]

theorem componentPieces_plain (ht : ∀ c ∈ t, c ∉ globMarks) (hslash : '/' ∉ t) :
    componentPieces t = .ok (literal t) := by
  have hstar : t ≠ ['*'] := by
    rintro rfl
    exact ht '*' (by simp) (by simp [globMarks])
  rw [componentPieces, if_neg hstar, segmentPieces_plain ht, literal]
  refine congrArg _ (List.map_congr_left fun c hc ↦ ?_)
  rw [if_neg (ne_of_mem_of_not_mem hc hslash)]

/-- Plain segments match the path that they make. -/
theorem joinPieces_texts_append {parts : List Text} {ss : List Segment} (needsSlash : Bool)
    (hparts : parts ≠ []) (hplain : ∀ s ∈ parts, (∀ c ∈ s, c ∉ globMarks) ∧ '/' ∉ s)
    (hss : ss ≠ []) :
    joinPieces directory needsSlash (parts.map .text ++ ss) =
      (joinPieces directory true ss).map fun ps ↦
        (if needsSlash then [.slash false] else []) ++ literal (Path.joinParts parts) ++ ps := by
  induction parts generalizing needsSlash with
  | nil => exact absurd rfl hparts
  | cons s parts ih =>
    obtain ⟨⟨hs, hslash⟩, hplain⟩ := List.forall_mem_cons.mp hplain
    have hrest : (parts.map Segment.text ++ ss).isEmpty = false := by simp [hss]
    rw [List.map_cons, List.cons_append, joinPieces_text, componentPieces_plain hs hslash, hrest]
    by_cases hnil : parts = []
    · subst hnil
      rw [List.map_nil, List.nil_append]
      cases joinPieces directory true ss with
      | error e => rfl
      | ok ps => simp [Except.bind, Except.map, Path.joinParts]
    · rw [ih true hnil hplain, Path.joinParts_cons s hnil]
      cases joinPieces directory true ss with
      | error e => rfl
      | ok ps => simp [Except.bind, Except.map, literal]

theorem joinPieces_texts {parts : List Text} (needsSlash : Bool) (hparts : parts ≠ [])
    (hplain : ∀ s ∈ parts, (∀ c ∈ s, c ∉ globMarks) ∧ '/' ∉ s) :
    joinPieces directory needsSlash (parts.map .text) =
      .ok ((if needsSlash then [.slash false] else []) ++ literal (Path.joinParts parts) ++
        [.finish]) := by
  induction parts generalizing needsSlash with
  | nil => exact absurd rfl hparts
  | cons s parts ih =>
    obtain ⟨⟨hs, hslash⟩, hplain⟩ := List.forall_mem_cons.mp hplain
    rw [List.map_cons, joinPieces_text, componentPieces_plain hs hslash]
    by_cases hnil : parts = []
    · simp [hnil, Except.bind, Except.map, Path.joinParts, joinPieces]
    · rw [ih true hnil hplain, Path.joinParts_cons s hnil]
      simp [Except.bind, Except.map, literal, hnil]

/-! ## Matchers -/

/-- Whether a path matches, as something inside a directory or not. -/
def Matcher.hits (m : Matcher) (path : Text) : Bool :=
  (m.run path).isSome

theorem Matcher.hits_glob {ps : List Piece} {path : Text} :
    (Matcher.glob ps).hits path = true ↔ Begins ps path :=
  isSome_matchPieces_iff

/-- Whether a path matches, if the ranges of the matcher are in order. -/
def Matcher.outcome (m : Matcher) (path : Text) : Except SegmentFault Bool :=
  m.checked.map (·.hits path)

/-- Globs with the same ranges have the same outcome where they match the same. -/
theorem Matcher.outcome_glob_congr {ps qs : List Piece} {path path' : Text}
    (hranges : reversedRange? ps = reversedRange? qs) (h : Begins ps path ↔ Begins qs path') :
    (Matcher.glob ps).outcome path = (Matcher.glob qs).outcome path' := by
  simp only [outcome, checked, hranges]
  cases reversedRange? qs with
  | some r => rfl
  | none => exact congrArg Except.ok (Bool.eq_iff_iff.mpr (hits_glob.trans (h.trans hits_glob.symm)))

theorem Matcher.outcome_eq_true {ps : List Piece} {path : Text} (hranges : reversedRange? ps = none)
    (h : Begins ps path) : (Matcher.glob ps).outcome path = .ok true := by
  rw [outcome, checked, hranges]
  exact congrArg Except.ok (hits_glob.mpr h)

theorem Matcher.hits_of_outcome {m : Matcher} {path : Text} (h : m.outcome path = .ok true) :
    m.hits path = true := by
  obtain ⟨m', hm', hhits⟩ := Except.map_eq_ok_iff.mp h
  cases m with
  | anything | nested marked => exact Except.ok.inj hm' ▸ hhits
  | glob ps =>
    rw [checked] at hm'
    split at hm'
    · cases hm'
    · exact Except.ok.inj hm' ▸ hhits

theorem reversedRange?_append (ps qs : List Piece) :
    reversedRange? (ps ++ qs) = (reversedRange? ps).or (reversedRange? qs) :=
  List.findSome?_append

theorem reversedRange?_literal (t : Text) : reversedRange? (literal t) = none := by
  rw [reversedRange?, List.findSome?_eq_none_iff]
  intro p hp
  obtain ⟨c, -, rfl⟩ := List.mem_map.mp hp
  split_ifs <;> rfl

theorem reversedRange?_literal_append (t : Text) (ps : List Piece) :
    reversedRange? (literal t ++ ps) = reversedRange? ps := by
  rw [reversedRange?_append, reversedRange?_literal, Option.none_or]

theorem ofSegments_text :
    Matcher.ofSegments directory (.text t :: rest) =
      (joinPieces directory false (.text t :: rest)).map .glob := by
  rw [Matcher.ofSegments]
  · cases joinPieces directory false (.text t :: rest) <;> rfl
  all_goals simp

theorem outcome_ofSegments_text (path : Text) :
    (Matcher.ofSegments directory (.text t :: rest)).bind (·.outcome path) =
      (joinPieces directory false (.text t :: rest)).bind fun ps ↦
        (Matcher.glob ps).outcome path := by
  rw [ofSegments_text]
  cases joinPieces directory false (.text t :: rest) <;> rfl

/-- The matchers for a lone asterisk are short cuts for globs. -/
theorem outcome_ofSegments_anyDepth_text {path : Text} (hne : path ≠ [])
    (hhead : path.head? ≠ some '/') :
    (Matcher.ofSegments directory (.anyDepth :: .text t :: rest)).bind (·.outcome path) =
      (joinPieces directory false (.text t :: rest)).bind fun ps ↦
        (Matcher.glob (.leading :: ps)).outcome path := by
  by_cases hstar : t = ['*'] ∧ rest = []
  · obtain ⟨rfl, rfl⟩ := hstar
    have hglob : (Matcher.glob [.leading, .one, .many, .finish]).hits path = true :=
      Matcher.hits_glob.mpr (.inr (begins_one_many_finish hne hhead))
    have hany : Matcher.anything.hits path = true := by simp [Matcher.hits, Matcher.run, hne]
    exact congrArg Except.ok (hany.trans hglob.symm)
  · by_cases hnested : t = ['*'] ∧ rest = [.anyDepth]
    · obtain ⟨rfl, rfl⟩ := hnested
      have hglob : (Matcher.glob [.leading, .one, .many, .slash directory]).hits path = true ↔
          '/' ∈ path := by
        rw [Matcher.hits_glob, Begins, begins_one_many_slash_iff hhead, or_iff_right_iff_imp]
        rintro ⟨s, rest, rfl, -⟩
        simp
      have hnested : (Matcher.nested directory).hits path = true ↔ '/' ∈ path := by
        simp only [Matcher.hits, Matcher.run]
        split <;> simp_all
      exact congrArg Except.ok (Bool.eq_iff_iff.mpr (hnested.trans hglob.symm))
    · rw [Matcher.ofSegments]
      · cases joinPieces directory false (.text t :: rest) <;> rfl
      all_goals simp_all

/-- In a directory itself, a single component matches the same with and without any depth before
it. -/
theorem outcome_ofSegments_child {path : Text} (ht : t ≠ [])
    (hrest : rest = [] ∨ rest = [.anyDepth]) (hne : path ≠ []) (hhead : path.head? ≠ some '/')
    (hchild : '/' ∉ path.dropLast) :
    (Matcher.ofSegments directory (.anyDepth :: .text t :: rest)).bind (·.outcome path) =
      (Matcher.ofSegments directory (.text t :: rest)).bind (·.outcome path) := by
  -- Either way the component is followed by one piece, which a slash satisfies.
  obtain ⟨last, hlast, hjoin⟩ : ∃ last, Begins [last] ['/'] ∧
      joinPieces directory false (.text t :: rest) = (componentPieces t).map (· ++ [last]) := by
    rcases hrest with rfl | rfl
    · refine ⟨.finish, .inl ⟨[], rfl, trivial⟩, ?_⟩
      rw [joinPieces_text]
      cases componentPieces t <;> simp [joinPieces, Except.bind, Except.map]
    · refine ⟨.slash directory, ⟨[], rfl, trivial⟩, ?_⟩
      rw [joinPieces_text]
      cases componentPieces t <;> simp [joinPieces, Except.bind, Except.map]
  rw [outcome_ofSegments_anyDepth_text hne hhead, outcome_ofSegments_text]
  refine Except.bind_congr fun ps hps ↦ Matcher.outcome_glob_congr rfl ?_
  rw [hjoin] at hps
  obtain ⟨glob, hglob, rfl⟩ := Except.map_eq_ok_iff.mp hps
  have hcomponent := inComponent_of_mem_componentPieces hglob
  have hnil : glob ≠ [] := by
    rintro rfl
    exact componentPieces_ne_nil ht hglob
  rw [begins_leading_component_iff hcomponent hnil hlast hchild]

section Below

variable {parts : List Text} {ss : List Segment} {path : Text} (hparts : parts ≠ [])
  (hplain : ∀ s ∈ parts, (∀ c ∈ s, c ∉ globMarks) ∧ '/' ∉ s)

include hparts hplain

theorem ofSegments_texts_append (hss : ss ≠ []) :
    Matcher.ofSegments directory (parts.map .text ++ ss) =
      (joinPieces directory true ss).map fun ps ↦
        .glob (literal (Path.joinParts parts) ++ ps) := by
  obtain ⟨part, more, rfl⟩ := List.exists_cons_of_ne_nil hparts
  rw [List.map_cons, List.cons_append, ofSegments_text, ← List.cons_append, ← List.map_cons,
    joinPieces_texts_append false hparts hplain hss, Except.map_map]
  rfl

theorem outcome_ofSegments_texts_append (path : Text) (hss : ss ≠ []) :
    (Matcher.ofSegments directory (parts.map .text ++ ss)).bind (·.outcome path) =
      (joinPieces directory true ss).bind fun ps ↦
        (Matcher.glob (literal (Path.joinParts parts) ++ ps)).outcome path := by
  rw [ofSegments_texts_append hparts hplain hss]
  cases joinPieces directory true ss <;> rfl

/-- What matches the segments of a directory followed by others lies in the directory. -/
theorem exists_eq_of_outcome_ofSegments (hss : ss ≠ [])
    (h : (Matcher.ofSegments directory (parts.map .text ++ ss)).bind (·.outcome path) = .ok true) :
    ∃ rest, path = Path.joinParts parts ++ '/' :: rest := by
  rw [outcome_ofSegments_texts_append hparts hplain path hss] at h
  cases hps : joinPieces directory true ss with
  | error e => simp [hps, Except.bind] at h
  | ok ps =>
    rw [hps] at h
    have hbegins := Matcher.hits_glob.mp (Matcher.hits_of_outcome h)
    obtain ⟨rest, rfl, hrest⟩ := begins_literal_append_iff.mp hbegins
    obtain ⟨tail, rfl⟩ := List.head?_eq_some_iff.mp (head?_of_begins_joinPieces hss hps hrest)
    exact ⟨tail, rfl⟩

theorem outcome_ofSegments_texts_append_below (hss : ss ≠ []) :
    (Matcher.ofSegments directory (parts.map .text ++ ss)).bind
        (·.outcome (Path.joinParts parts ++ '/' :: path)) =
      (joinPieces directory true ss).bind fun ps ↦ (Matcher.glob ps).outcome ('/' :: path) := by
  rw [outcome_ofSegments_texts_append hparts hplain _ hss]
  refine Except.bind_congr fun ps _ ↦
    Matcher.outcome_glob_congr (reversedRange?_literal_append _ ps) ?_
  rw [begins_literal_append_iff]
  simp

/-- Everything below a directory matches its segments followed by any depth. -/
theorem outcome_ofSegments_below_anything (hne : path ≠ []) :
    (Matcher.ofSegments false (parts.map .text ++ [.anyDepth])).bind
        (·.outcome (Path.joinParts parts ++ '/' :: path)) =
      (Matcher.ofSegments false [.anyDepth]).bind (·.outcome path) := by
  have hany : Matcher.anything.hits path = true := by simp [Matcher.hits, Matcher.run, hne]
  rw [outcome_ofSegments_texts_append_below hparts hplain (by simp)]
  exact congrArg Except.ok hany.symm

/-- Below a directory, what matches its segments followed by others is what matches these. -/
theorem outcome_ofSegments_below {s : Text} (hss : .text s ∈ ss) (hne : path ≠ [])
    (hhead : path.head? ≠ some '/') :
    (Matcher.ofSegments directory (parts.map .text ++ collapse ss)).bind
        (·.outcome (Path.joinParts parts ++ '/' :: path)) =
      (Matcher.ofSegments directory (collapse ss)).bind (·.outcome path) := by
  rw [outcome_ofSegments_texts_append_below hparts hplain
    (collapse_ne_nil (List.ne_nil_of_mem hss))]
  rcases collapse_of_text_mem hss with ⟨t, rest, heq⟩ | ⟨t, rest, heq⟩
  · rw [heq, joinPieces_true_text, outcome_ofSegments_text, Except.map_bind]
    refine Except.bind_congr fun ps _ ↦ Matcher.outcome_glob_congr rfl ?_
    rw [begins_slash_cons]
  · rw [heq, joinPieces_anyDepth true (by simp), joinPieces_true_text, Except.map_bind,
      Except.map_bind, outcome_ofSegments_anyDepth_text hne hhead]
    refine Except.bind_congr fun ps _ ↦ Matcher.outcome_glob_congr rfl ?_
    rw [begins_inner_slash_iff, begins_slash_cons]

end Below

end CodeHealth.Ignore
