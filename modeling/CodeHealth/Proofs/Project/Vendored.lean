import CodeHealth.Proofs.Project.Agreement

/-!
# Vendored directories do not count

A directory with a vendored name is ignored whatever the rules are, and the ignore files in it are
not read.  So two projects that differ only inside such directories have the same rules and the same
sources, or the same fault.
-/

namespace CodeHealth

/-- The path of components ends with the last of them, and a slash comes before it if anything
does. -/
theorem Path.exists_joinParts_concat_eq (above : List Text) (name : Text) :
    ∃ s, (s = [] ∨ s.getLast? = some '/') ∧ joinParts (above ++ [name]) = s ++ name := by
  induction above with
  | nil => exact ⟨[], .inl rfl, by simp [joinParts]⟩
  | cons part above ih =>
    obtain ⟨s, hs, heq⟩ := ih
    refine ⟨part ++ '/' :: s, .inr ?_, ?_⟩
    · rcases hs with rfl | hs
      · simp
      · simp [List.getLast?_cons, hs]
    · rw [List.cons_append, joinParts_cons part (by simp), heq, List.append_assoc, List.cons_append]

namespace Ignore

theorem stripSlashes_append {name : Text} (s : Text) (hne : name ≠ []) (hslash : '/' ∉ name) :
    stripSlashes (s ++ name) = s.dropWhile (· == '/') ++ name := by
  have hkeep {t : Text} (rest : Text) (ht : t ≠ []) (hmem : '/' ∉ t) :
      (t ++ rest).dropWhile (· == '/') = t ++ rest := by
    obtain ⟨c, t, rfl⟩ := List.exists_cons_of_ne_nil ht
    have hc : c ≠ '/' := fun h ↦ hmem (by simp [h])
    simp [hc]
  have hfront : (s ++ name).dropWhile (· == '/') = s.dropWhile (· == '/') ++ name := by
    rw [List.dropWhile_append]
    split
    · next h => simpa [List.isEmpty_iff.mp h] using hkeep [] hne hslash
    · rfl
  rw [stripSlashes, hfront, List.reverse_append, hkeep _ (by simpa using hne) (by simpa using hslash)]
  simp

theorem lastComponent_append {s name : Text} (hs : s = [] ∨ s.getLast? = some '/')
    (hslash : '/' ∉ name) : lastComponent (s ++ name) = name := by
  have hname : ∀ c ∈ name.reverse, (c != '/') = true := by
    intro c hc
    rw [bne_iff_ne]
    exact ne_of_mem_of_not_mem (List.mem_reverse.mp hc) hslash
  have hstop : s.reverse.takeWhile (· != '/') = [] := by
    rcases hs with rfl | hs
    · rfl
    · obtain ⟨init, rfl⟩ := List.getLast?_eq_some_iff.mp hs
      simp
  rw [lastComponent, List.reverse_append, List.takeWhile_append_of_pos hname, hstop]
  simp

theorem getLast?_dropWhile {s : Text} {c : Char} {p : Char → Bool}
    (hs : s = [] ∨ s.getLast? = some c) : s.dropWhile p = [] ∨ (s.dropWhile p).getLast? = some c := by
  by_cases hnil : s.dropWhile p = []
  · exact .inl hnil
  · obtain ⟨front, hfront⟩ := List.dropWhile_suffix (l := s) p
    rcases hs with rfl | hs
    · exact .inl rfl
    · rw [← hfront, List.getLast?_append_of_ne_nil _ hnil] at hs
      exact .inr hs

/-- A directory with a vendored name is ignored at any depth and under any rules. -/
theorem ignores_vendored (ps : List Pattern) (above : List Text) {name : Text}
    (hname : name ∈ vendoredNames) : ignores ps (Path.joinParts (above ++ [name])) true = true := by
  obtain ⟨hne, hslash⟩ : name ≠ [] ∧ '/' ∉ name := by
    revert name
    decide
  obtain ⟨s, hs, heq⟩ := Path.exists_joinParts_concat_eq above name
  have hlast : lastComponent (s.dropWhile (· == '/') ++ name) = name :=
    lastComponent_append (getLast?_dropWhile hs) hslash
  rw [heq, ignores, stripSlashes_append s hne hslash]
  simp [hlast, hne, hname]

end Ignore

namespace Project

open FileTree

/-- No directory on the way is vendored; the last component may be. -/
def Outside (parts : List Text) : Prop :=
  ∀ name ∈ parts.dropLast, name ∉ Ignore.vendoredNames

/-- The trees differ only in what lies inside vendored directories: elsewhere they have the same
files and the same directories. -/
structure AgreeOutside (t t' : FileTree) : Prop where
  file {parts : List Text} {content : Text.Bytes} (hparts : Outside parts) :
    Leads t parts (.file content) ↔ Leads t' parts (.file content)
  directory {parts : List Text} (hparts : Outside parts) :
    (∃ es, Leads t parts (.directory es)) ↔ ∃ es, Leads t' parts (.directory es)

variable {t t' : FileTree} {parts : List Text}

theorem AgreeOutside.symm (h : AgreeOutside t t') : AgreeOutside t' t :=
  ⟨fun hparts ↦ (h.file hparts).symm, fun hparts ↦ (h.directory hparts).symm⟩

theorem outside_of_isRuleFile (h : isRuleFile parts = true) : Outside parts := by
  simpa [isRuleFile, Outside] using (Bool.and_eq_true_iff.mp h).2

theorem AgreeOutside.agreeAt (h : AgreeOutside t t') (hparts : Outside parts) : AgreeAt t t' parts :=
  ⟨h.file hparts, h.directory hparts⟩

theorem AgreeOutside.ignorePatterns_eq (h : AgreeOutside t t') (ht : WellFormed t)
    (ht' : WellFormed t') (root : Path) : ignorePatterns root t = ignorePatterns root t' :=
  ignorePatterns_eq_of_agreeAt ht ht' root fun _ hrule ↦ h.agreeAt (outside_of_isRuleFile hrule)

/-! ## The same sources -/

variable {ps : List Ignore.Pattern}

/-- No source lies in a vendored directory, whatever the rules include again. -/
theorem Visible.outside (h : Visible ps [] t parts) : Outside parts := by
  intro name hmem hname
  obtain ⟨above, more, heq⟩ := List.append_of_mem hmem
  have hne : parts ≠ [] := by
    rintro rfl
    exact absurd hmem List.not_mem_nil
  have hparts : above ++ [name] ++ (more ++ [parts.getLast hne]) = parts := by
    rw [← List.append_assoc, List.append_assoc above, List.singleton_append, ← heq,
      List.dropLast_append_getLast]
  have hopen := h.enclosed (above ++ [name]) ⟨_, hparts⟩ fun hself ↦ by simp [hself] at hparts
  rw [List.nil_append, Ignore.ignores_vendored ps above hname] at hopen
  cases hopen

theorem AgreeOutside.visible (h : AgreeOutside t t') (hparts : Visible ps [] t parts) :
    Visible ps [] t' parts := by
  obtain ⟨content, hleads⟩ := hparts.isFile
  exact { hparts with isFile := ⟨content, (h.file hparts.outside).mp hleads⟩ }

/-- Two projects that differ only inside vendored directories, anywhere below the root, have the
same sources or the same fault. -/
theorem sourcePaths_eq_of_agreeOutside {fs fs' : FileSystem} {p : Path}
    {es es' : List (Text × FileTree)} (hfs : WellFormed fs.root) (hfs' : WellFormed fs'.root)
    (hp : fs.find? p = some (.directory es)) (hp' : fs'.find? p = some (.directory es'))
    (h : AgreeOutside (.directory es) (.directory es')) :
    sourcePaths fs p = sourcePaths fs' p := by
  have hrules := h.ignorePatterns_eq (FileSystem.wellFormed_find? hfs hp)
    (FileSystem.wellFormed_find? hfs' hp') p
  rw [sourcePaths, sourcePaths, sources_eq_of_visible_iff hfs hfs' hp hp' hrules fun _ _ ↦
    ⟨h.visible, h.symm.visible⟩]

/-- Exchanging what a vendored directory holds changes nothing outside. -/
theorem agreeOutside_vendored {name : Text} (hname : name ∈ Ignore.vendoredNames)
    (inside inside' es : List (Text × FileTree)) :
    AgreeOutside (.directory ((name, .directory inside) :: es))
      (.directory ((name, .directory inside') :: es)) := by
  have hdeep {first next : Text} {more : List Text} (h : Outside (first :: next :: more)) :
      first ≠ name := by
    rintro rfl
    exact h first (by simp) hname
  constructor
  · intro parts content hparts
    match parts with
    | [] => simp [leads_nil_iff]
    | [first] => simp [leads_cons_iff, leads_nil_iff]
    | first :: next :: more => simp [leads_cons_iff, hdeep hparts]
  · intro parts hparts
    match parts with
    | [] => simp [leads_nil_iff]
    | [first] =>
      simp only [leads_cons_iff, leads_nil_iff, List.mem_cons, Prod.mk.injEq]
      by_cases hfirst : first = name
      · simp [hfirst]
      · simp [hfirst]
    | first :: next :: more => simp [leads_cons_iff, hdeep hparts]

/-- The rule `!node_modules/`. -/
def includingPackages : FileTree :=
  .file [33, 110, 111, 100, 101, 95, 109, 111, 100, 117, 108, 101, 115, 47, 10]

/-- A project with this rule, a source and installed packages. -/
def vendoring (packages : List (Text × FileTree)) : List (Text × FileTree) :=
  [("node_modules".toList, .directory packages), (ignoreFileName, includingPackages),
   (['a', '.', 't', 's'], .file [])]

/-- Packages with a source, and an ignore file that cannot be decoded. -/
def brokenPackages : List (Text × FileTree) :=
  [(ignoreFileName, .file [255]), (['b', '.', 't', 's'], .file [])]

theorem wellFormed_vendoring {packages : List (Text × FileTree)}
    (h : WellFormed (.directory packages)) : WellFormed (.directory (vendoring packages)) := by
  have hkeys : Assoc.keys (vendoring packages) =
      ["node_modules".toList, ignoreFileName, ['a', '.', 't', 's']] := rfl
  refine .directory (by rw [hkeys]; decide) (by rw [hkeys]; decide) ?_
  simp [vendoring, includingPackages, WellFormed.file, h]

theorem wellFormed_brokenPackages : WellFormed (.directory brokenPackages) := by
  refine .directory (by decide) (by decide) ?_
  simp [brokenPackages, WellFormed.file]

theorem sourcePaths_vendoring_nil :
    sourcePaths (.ofTree (.directory (vendoring []))) ⟨[], []⟩ =
      .ok [⟨[], [['a', '.', 't', 's']]⟩] := by
  have hfiles : ignoreFiles (.directory (vendoring [])) = [([ignoreFileName], includingPackages)] :=
    List.mergeSort_singleton ([ignoreFileName], includingPackages)
  obtain ⟨ps, hps, hfound⟩ : ∃ ps, ignorePatterns ⟨[], []⟩ (.directory (vendoring [])) = .ok ps ∧
      sourcesIn ps (.directory (vendoring [])) = [[['a', '.', 't', 's']]] := by
    rw [ignorePatterns, hfiles]
    exact ⟨_, rfl, rfl⟩
  have hroot : FileSystem.find? (.ofTree (.directory (vendoring []))) ⟨[], []⟩ =
      some (.directory (vendoring [])) := rfl
  rw [sourcePaths, sources_of_directory hroot, hps]
  simp only [Except.map, hfound, List.mergeSort_singleton]
  rfl

/-- Neither the broken ignore file nor the source in the packages counts. -/
theorem sourcePaths_eq_of_agreeOutside_vendoring :
    WellFormed (.directory (vendoring brokenPackages)) ∧
    WellFormed (.directory (vendoring [])) ∧
    AgreeOutside (.directory (vendoring brokenPackages)) (.directory (vendoring [])) ∧
    sourcePaths (.ofTree (.directory (vendoring brokenPackages))) ⟨[], []⟩ =
      .ok [⟨[], [['a', '.', 't', 's']]⟩] := by
  have hbroken := wellFormed_vendoring wellFormed_brokenPackages
  have hempty : WellFormed (.directory (vendoring [])) :=
    wellFormed_vendoring (.directory (by decide) (by decide) (by simp))
  have hagree : AgreeOutside (.directory (vendoring brokenPackages)) (.directory (vendoring [])) :=
    agreeOutside_vendored (by decide) _ _ _
  have hsame : sourcePaths (.ofTree (.directory (vendoring brokenPackages))) ⟨[], []⟩ =
      sourcePaths (.ofTree (.directory (vendoring []))) ⟨[], []⟩ :=
    sourcePaths_eq_of_agreeOutside hbroken hempty rfl rfl hagree
  exact ⟨hbroken, hempty, hagree, hsame.trans sourcePaths_vendoring_nil⟩

end Project

end CodeHealth
