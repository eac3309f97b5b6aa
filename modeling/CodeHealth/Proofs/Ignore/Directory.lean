import CodeHealth.Proofs.Ignore.Line

/-!
# Directories under two names

A directory is judged by its path and, once more, by its path with a slash behind it.  What hits the
path hits it with the slash as well, so the path by itself can only turn the verdict on a directory
that the patterns include again.  There it does: such a directory is ignored all the same.
-/

namespace CodeHealth.Ignore

/-! ## What a verdict rests on -/

theorem verdictFrom_eq_none_iff {path : Text} {best : Option Bool} {ps : List Pattern} :
    verdictFrom path best ps = none ↔ best = none ∧ ∀ q ∈ ps, q.matcher.hits path = false := by
  induction ps generalizing best with
  | nil => simp [verdictFrom]
  | cons q ps ih =>
    rw [List.forall_mem_cons, verdictFrom, Matcher.hits]
    cases q.matcher.run path with
    | none => simp [ih]
    | some marked => cases marked <;> simp [ih]

/-- The verdict is that of a pattern that hits the path, or the one to start from. -/
theorem exists_of_verdictFrom_eq_some {path : Text} {best : Option Bool} {ps : List Pattern}
    {b : Bool} (h : verdictFrom path best ps = some b) :
    best = some b ∨ ∃ q ∈ ps, q.ignores = b ∧ q.matcher.hits path = true := by
  induction ps generalizing best with
  | nil => exact .inl h
  | cons q ps ih =>
    have hmore (h : ∃ q ∈ ps, q.ignores = b ∧ q.matcher.hits path = true) :
        ∃ q' ∈ q :: ps, q'.ignores = b ∧ q'.matcher.hits path = true := by
      obtain ⟨q', hq', hspec⟩ := h
      exact ⟨q', List.mem_cons_of_mem q hq', hspec⟩
    rw [verdictFrom] at h
    cases hrun : q.matcher.run path with
    | none =>
      rw [hrun] at h
      exact (ih h).imp_right hmore
    | some marked =>
      have hhit : q.matcher.hits path = true := by rw [Matcher.hits, hrun, Option.isSome_some]
      rw [hrun] at h
      cases marked with
      | false => exact .inr ⟨q, List.mem_cons_self, Option.some.inj h, hhit⟩
      | true =>
        rcases ih h with hbest | hlater
        · cases best with
          | none => exact .inr ⟨q, List.mem_cons_self, Option.some.inj hbest, hhit⟩
          | some b' => exact .inl hbest
        · exact .inr (hmore hlater)

variable {ps : List Pattern} {path : Text}

theorem verdict_eq_none_iff :
    verdict ps path = none ↔ ∀ q ∈ ps, q.matcher.hits (normalPath path) = false := by
  simp [verdict, verdictFrom_eq_none_iff]

theorem exists_of_verdict_eq_some {b : Bool} (h : verdict ps path = some b) :
    ∃ q ∈ ps, q.ignores = b ∧ q.matcher.hits (normalPath path) = true := by
  rcases exists_of_verdictFrom_eq_some h with hbest | ⟨q, hq, hspec⟩
  · cases hbest
  · exact ⟨q, List.mem_reverse.mp hq, hspec⟩

/-! ## A slash behind the path -/

theorem getLast?_ne_of_append {s t : Text} {c : Char} (h : (s ++ t).getLast? ≠ some c) :
    t.getLast? ≠ some c := by
  intro ht
  exact h (List.mem_getLast?_append_of_mem_getLast? ht)

/-- A match that takes the path to its end can take a slash behind it instead.  Not so before a line
feed at the end, which a match may leave. -/
theorem Begins.append_slash {pieces : List Piece} {t : Text} (h : Begins pieces t)
    (ht : t.getLast? ≠ some '\n') : Begins pieces (t ++ ['/']) := by
  induction pieces generalizing t with
  | nil => trivial
  | cons p pieces ih =>
    cases p with
    | char x =>
      obtain ⟨rest, rfl, h⟩ := h
      exact ⟨_, rfl, ih h (getLast?_ne_of_append (s := [x]) ht)⟩
    | one =>
      obtain ⟨c, rest, rfl, hc, h⟩ := h
      exact ⟨c, _, rfl, hc, ih h (getLast?_ne_of_append (s := [c]) ht)⟩
    | many =>
      obtain ⟨s, rest, rfl, hs, h⟩ := h
      exact ⟨s, _, List.append_assoc s rest _, hs, ih h (getLast?_ne_of_append ht)⟩
    | oneOf k =>
      obtain ⟨c, rest, rfl, hc, h⟩ := h
      exact ⟨c, _, rfl, hc, ih h (getLast?_ne_of_append (s := [c]) ht)⟩
    | leading =>
      rcases h with ⟨s, rest, rfl, hs, hline, h⟩ | h
      · refine .inl ⟨s, _, List.append_assoc s _ _, hs, hline, ih h ?_⟩
        exact getLast?_ne_of_append (s := ['/']) (getLast?_ne_of_append ht)
      · exact .inr (ih h ht)
    | inner =>
      rcases h with ⟨s, rest, rfl, hs, hline, h⟩ | h
      · refine .inl ⟨s, rest ++ ['/'], by simp, hs, hline, ih h ?_⟩
        exact getLast?_ne_of_append (getLast?_ne_of_append (s := ['/']) ht)
      · exact .inr (ih h ht)
    | slash marked =>
      obtain ⟨rest, rfl, h⟩ := h
      exact ⟨_, rfl, ih h (getLast?_ne_of_append (s := ['/']) ht)⟩
    | finish =>
      rcases h with ⟨rest, rfl, h⟩ | ⟨hend, h⟩
      · exact .inl ⟨_, rfl, ih h (getLast?_ne_of_append (s := ['/']) ht)⟩
      · obtain rfl : t = [] := by
          rcases Bool.or_eq_true_iff.mp hend with hnil | hline
          · exact List.isEmpty_iff.mp hnil
          · exact absurd (congrArg List.getLast? (eq_of_beq hline)) ht
        exact .inl ⟨[], rfl, h⟩

theorem Matcher.hits_append_slash {m : Matcher} (h : m.hits path = true)
    (hlast : path.getLast? ≠ some '\n') : m.hits (path ++ ['/']) = true := by
  cases m with
  | anything => simp [hits, run]
  | nested marked => simp [hits, run]
  | glob pieces => exact hits_glob.mpr ((hits_glob.mp h).append_slash hlast)

/-- The path of something below the root, without slashes around it. -/
structure IsBare (path : Text) : Prop where
  ne_nil : path ≠ []
  ne_dot : path ≠ ['.']
  stripped : stripSlashes path = path

theorem isBare_singleton {c : Char} (hslash : c ≠ '/') (hdot : c ≠ '.') : IsBare [c] where
  ne_nil := List.cons_ne_nil c []
  ne_dot h := hdot (List.singleton_inj.mp h)
  stripped := by simp [stripSlashes, hslash]

namespace IsBare

theorem normalPath_append_slash (h : IsBare path) :
    normalPath (path ++ ['/']) = normalPath path ++ ['/'] := by
  obtain ⟨hnil, hdot, -⟩ := h
  by_cases hslash : path.head? = some '/'
  · obtain ⟨rest, rfl⟩ := List.head?_eq_some_iff.mp hslash
    rfl
  · by_cases hdots : ['.', '/'] <+: path
    · obtain ⟨rest, rfl⟩ := hdots
      rfl
    · have hrelative : IsRelative (path ++ ['/']) := by
        refine ⟨by rwa [List.head?_append_of_ne_nil _ hnil], fun hprefix ↦ ?_⟩
        rcases List.prefix_concat_iff.mp hprefix with heq | hprefix
        · exact hdot (List.append_cancel_right (show path ++ ['/'] = ['.'] ++ ['/'] from heq.symm))
        · exact hdots hprefix
      rw [normalPath_eq_self hrelative, normalPath_eq_self ⟨hslash, hdots⟩]

theorem getLast?_normalPath_ne {c : Char} (h : path.getLast? ≠ some c) :
    (normalPath path).getLast? ≠ some c := by
  unfold normalPath
  split
  · exact getLast?_ne_of_append (s := ['/']) h
  · exact getLast?_ne_of_append (s := ['.', '/']) h
  · exact h

/-- Patterns that say something about a path say something about it with a slash behind it. -/
theorem verdict_append_slash_ne_none (hp : IsBare path) (hlast : path.getLast? ≠ some '\n')
    {b : Bool} (h : verdict ps path = some b) : verdict ps (path ++ ['/']) ≠ none := by
  obtain ⟨q, hq, -, hhit⟩ := exists_of_verdict_eq_some h
  intro hnone
  have hmiss := verdict_eq_none_iff.mp hnone q hq
  rw [hp.normalPath_append_slash] at hmiss
  exact absurd (Matcher.hits_append_slash hhit (getLast?_normalPath_ne hlast))
    (ne_true_of_eq_false hmiss)

theorem ignores_eq (hp : IsBare path) (hname : lastComponent path ∉ vendoredNames) :
    ignores ps path true =
      (verdict ps path == some true || verdict ps (path ++ ['/']) == some true) := by
  simp [ignores, hp.stripped, hp.ne_nil, hname]

end IsBare

/-- A directory is ignored exactly if its path with a slash is, or if its path without one is
although the directory is included again (or its name ends with a line feed, which matches may leave
behind).  So where no pattern includes the directory again, the verdict is that on its path with a
slash. -/
theorem ignores_directory_iff (ps : List Pattern) {path : Text} (hp : IsBare path)
    (hname : lastComponent path ∉ vendoredNames) :
    (ignores ps path true = true ↔ verdict ps (path ++ ['/']) = some true ∨
      verdict ps path = some true ∧
        (verdict ps (path ++ ['/']) = some false ∨ path.getLast? = some '\n')) ∧
    ((∀ q ∈ ps, q.ignores = false → q.matcher.hits (normalPath (path ++ ['/'])) = false) →
      path.getLast? ≠ some '\n' →
      ignores ps path true = (verdict ps (path ++ ['/']) == some true)) := by
  have hiff : ignores ps path true = true ↔ verdict ps (path ++ ['/']) = some true ∨
      verdict ps path = some true ∧
        (verdict ps (path ++ ['/']) = some false ∨ path.getLast? = some '\n') := by
    rw [hp.ignores_eq hname, Bool.or_eq_true, beq_iff_eq, beq_iff_eq, or_comm]
    constructor
    · rintro (hslash | hpath)
      · exact .inl hslash
      · by_cases hlast : path.getLast? = some '\n'
        · exact .inr ⟨hpath, .inr hlast⟩
        · have hsome := hp.verdict_append_slash_ne_none hlast hpath
          cases hslash : verdict ps (path ++ ['/']) with
          | none => exact absurd hslash hsome
          | some b =>
            cases b with
            | true => exact .inl rfl
            | false => exact .inr ⟨hpath, .inl rfl⟩
    · exact Or.imp_right And.left
  refine ⟨hiff, fun hplain hlast ↦ ?_⟩
  rw [Bool.eq_iff_iff, hiff, beq_iff_eq, or_iff_left_iff_imp]
  rintro ⟨-, hslash | hline⟩
  · obtain ⟨q, hq, hinclude, hhit⟩ := exists_of_verdict_eq_some hslash
    exact absurd hhit (ne_true_of_eq_false (hplain q hq hinclude))
  · exact absurd hline hlast

/-- The patterns of the lines `/*` and `!/s/`: of all that lies in the root, only the directory `s`
is included again. -/
def onlyDirectory : List Pattern :=
  [⟨true, .glob [.one, .many, .finish]⟩, ⟨false, .glob [.char 's', .slash true]⟩]

theorem ignores_directory_iff_onlyDirectory :
    IsBare ['s'] ∧ lastComponent ['s'] ∉ vendoredNames ∧
    verdict onlyDirectory ['s'] = some true ∧ ignores onlyDirectory ['s'] true = true ∧
    IsBare ['b'] ∧ lastComponent ['b'] ∉ vendoredNames ∧
    ignores onlyDirectory ['b'] true = (verdict onlyDirectory ['b', '/'] == some true) := by
  have hs : IsBare ['s'] := isBare_singleton (by decide) (by decide)
  have hb : IsBare ['b'] := isBare_singleton (by decide) (by decide)
  refine ⟨hs, by decide, by decide, ?_, hb, by decide, ?_⟩
  · exact (ignores_directory_iff onlyDirectory hs (by decide)).1.mpr
      (.inr ⟨by decide, .inl (by decide)⟩)
  · exact (ignores_directory_iff onlyDirectory hb (by decide)).2 (by decide) (by decide)

/-- The directory that is included again is ignored, although the verdict on its path with a slash
is that it is included. -/
theorem ignores_reincluded_directory :
    patterns [['/', '*'], ['!', '/', 's', '/']] = .ok onlyDirectory ∧
    IsBare ['s'] ∧ lastComponent ['s'] ∉ vendoredNames ∧
    verdict onlyDirectory (['s'] ++ ['/']) = some false ∧
    ignores onlyDirectory ['s'] true = true :=
  ⟨rfl, isBare_singleton (by decide) (by decide), by decide, by decide, by decide⟩

end CodeHealth.Ignore
