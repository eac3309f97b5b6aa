import CodeHealth.Proofs.Except
import CodeHealth.Proofs.Project.Discovery

/-!
# What the sources of a project depend on

The rules of a project are read from its ignore files, in the order of their paths, and its sources
are the visible files in that order.  So two trees with the same ignore files and the same visible
files have the same sources, or the same fault; as a tree has before and after the content of a
source changes.
-/

namespace CodeHealth.Project

open FileTree

variable {t t' : FileTree} {parts : List Text}

/-- In strictly increasing order, a list is determined by its members. -/
theorem eq_of_pairwise_lt {α : Type*} (path : α → List Text) {xs ys : List α}
    (hxs : xs.Pairwise fun a b ↦ path a < path b) (hys : ys.Pairwise fun a b ↦ path a < path b)
    (hmem : ∀ a, a ∈ xs ↔ a ∈ ys) : xs = ys := by
  have hnodup {zs : List α} (hzs : zs.Pairwise fun a b ↦ path a < path b) : zs.Nodup :=
    hzs.imp fun hlt heq ↦ hlt.ne (congrArg path heq)
  have hperm := (List.perm_ext_iff_of_nodup (hnodup hxs) (hnodup hys)).mpr hmem
  exact hperm.eq_of_pairwise (fun a b _ _ hab hba ↦ absurd hba hab.asymm) hxs hys

/-! ## Ignore files -/

/-- The place of an ignore file that is read. -/
def isRuleFile (parts : List Text) : Bool :=
  parts.getLast? == some ignoreFileName &&
    !parts.dropLast.any fun p ↦ Ignore.vendoredNames.contains p

theorem ignoreFiles_eq (t : FileTree) :
    ignoreFiles t =
      ((places [] t).filter fun e ↦ isRuleFile e.1).mergeSort fun a b ↦ partsLe a.1 b.1 :=
  rfl

theorem placesAll_eq_flatMap (above : List Text) (es : List (Text × FileTree)) :
    placesAll above es =
      es.flatMap fun e ↦ (above ++ [e.1], e.2) :: places (above ++ [e.1]) e.2 := by
  induction es with
  | nil => simp [placesAll]
  | cons e es ih => simp [placesAll, ih]

theorem mem_places {above : List Text} {e : List Text × FileTree} :
    e ∈ places above t ↔ ∃ rel, rel ≠ [] ∧ e.1 = above ++ rel ∧ Leads t rel e.2 := by
  induction t generalizing above with
  | file content => simp [places, leads_file_iff]
  | directory es ih =>
    rw [places, placesAll_eq_flatMap, List.mem_flatMap]
    constructor
    · rintro ⟨d, hd, he⟩
      rcases List.mem_cons.mp he with rfl | he
      · exact ⟨[d.1], by simp, rfl, .enter hd (.here d.2)⟩
      · obtain ⟨rel, -, heq, hleads⟩ := (ih d hd).mp he
        exact ⟨d.1 :: rel, by simp, by simp [heq], .enter hd hleads⟩
    · rintro ⟨rel, hne, heq, hleads⟩
      obtain ⟨parts, u⟩ := e
      cases hleads with
      | here => exact absurd rfl hne
      | @enter _ name d _ more hd hleads =>
        refine ⟨(name, d), hd, List.mem_cons.mpr ?_⟩
        cases more with
        | nil =>
          cases hleads
          exact .inl (by simpa using heq)
        | cons next more =>
          exact .inr ((ih (name, d) hd).mpr ⟨next :: more, by simp, by simpa using heq, hleads⟩)

theorem nodup_places (ht : WellFormed t) (above : List Text) :
    ((places above t).map Prod.fst).Nodup := by
  induction t generalizing above with
  | file content => exact List.nodup_nil
  | directory es ih =>
    cases ht with
    | directory hnames hback hes =>
      rw [places, placesAll_eq_flatMap, List.map_flatMap]
      refine List.nodup_flatMap.mpr ⟨fun e he ↦ ?_, ?_⟩
      · rw [List.map_cons]
        refine List.nodup_cons.mpr ⟨fun hmem ↦ ?_, ih e he (hes e he) _⟩
        obtain ⟨d, hd, heq⟩ := List.mem_map.mp hmem
        obtain ⟨rel, hne, hrel, -⟩ := mem_places.mp hd
        exact hne (by simpa [hrel] using heq)
      · refine (List.pairwise_map.mp hnames).imp fun {d e} hne parts hd he ↦ hne ?_
        have hstarts {c : Text × FileTree} (hc : parts ∈
            ((above ++ [c.1], c.2) :: places (above ++ [c.1]) c.2).map Prod.fst) :
            ∃ rel, parts = above ++ [c.1] ++ rel := by
          rcases List.mem_cons.mp hc with rfl | hc
          · exact ⟨[], (List.append_nil _).symm⟩
          · obtain ⟨x, hx, rfl⟩ := List.mem_map.mp hc
            obtain ⟨rel, -, hrel, -⟩ := mem_places.mp hx
            exact ⟨rel, hrel⟩
        obtain ⟨rel, rfl⟩ := hstarts hd
        obtain ⟨rel', heq⟩ := hstarts he
        simpa using (List.append_inj heq (by simp)).1

/-- What an ignore file says: its place, and its lines or its fault. -/
def ruleFile (root : Path) (e : List Text × FileTree) : List Text × Except ReadFault (List Text) :=
  (e.1, ignoreLines root e.1 e.2)

/-- The patterns of a project depend only on what its ignore files say. -/
theorem ignorePatterns_eq_of_map_ruleFile {root : Path}
    (h : (ignoreFiles t).map (ruleFile root) = (ignoreFiles t').map (ruleFile root)) :
    ignorePatterns root t = ignorePatterns root t' := by
  have hread (t : FileTree) : ignorePatterns root t =
      (((ignoreFiles t).map (ruleFile root)).mapM Prod.snd).mapError DiscoveryFault.unreadable >>=
        fun lines ↦ (Ignore.patterns lines.flatten).mapError .pattern := by
    rw [List.mapM_map]
    rfl
  rw [hread t, hread t', h]

theorem pairwise_ignoreFiles (ht : WellFormed t) :
    (ignoreFiles t).Pairwise fun a b ↦ a.1 < b.1 := by
  have hnodup : ((ignoreFiles t).map Prod.fst).Nodup := by
    rw [ignoreFiles_eq, ((List.mergeSort_perm _ _).map Prod.fst).nodup_iff]
    exact (nodup_places ht []).sublist (List.filter_sublist.map Prod.fst)
  refine (List.Pairwise.and (pairwise_mergeSort_on Prod.fst _) (List.pairwise_map.mp hnodup)).imp ?_
  exact fun h ↦ lt_of_le_of_ne h.1 h.2

theorem mem_ignoreFiles {e : List Text × FileTree} :
    e ∈ ignoreFiles t ↔ isRuleFile e.1 = true ∧ Leads t e.1 e.2 := by
  rw [ignoreFiles_eq, List.mem_mergeSort, List.mem_filter, mem_places, and_comm]
  refine and_congr_right fun hrule ↦ ?_
  constructor
  · rintro ⟨rel, -, rfl, hleads⟩
    exact hleads
  · intro hleads
    refine ⟨e.1, fun hnil ↦ ?_, rfl, hleads⟩
    rw [hnil] at hrule
    exact absurd hrule (by decide)

/-! ## The same rules -/

/-- The components lead to the same file in both trees, or to a directory in both, or nowhere. -/
structure AgreeAt (t t' : FileTree) (parts : List Text) : Prop where
  file {content : Text.Bytes} : Leads t parts (.file content) ↔ Leads t' parts (.file content)
  directory : (∃ es, Leads t parts (.directory es)) ↔ ∃ es, Leads t' parts (.directory es)

theorem AgreeAt.symm (h : AgreeAt t t' parts) : AgreeAt t' t parts :=
  ⟨h.file.symm, h.directory.symm⟩

theorem mem_map_ruleFile_of_agreeAt (h : ∀ parts, isRuleFile parts = true → AgreeAt t t' parts)
    {root : Path} {x : List Text × Except ReadFault (List Text)}
    (hx : x ∈ (ignoreFiles t).map (ruleFile root)) : x ∈ (ignoreFiles t').map (ruleFile root) := by
  obtain ⟨⟨parts, f⟩, he, rfl⟩ := List.mem_map.mp hx
  obtain ⟨hrule, hleads⟩ := mem_ignoreFiles.mp he
  cases f with
  | file content =>
    have hleads' := (h parts hrule).file.mp hleads
    exact List.mem_map_of_mem (mem_ignoreFiles.mpr ⟨hrule, hleads'⟩)
  | directory es =>
    -- Directories with the name of an ignore file fail alike, whatever they hold.
    obtain ⟨es', hleads'⟩ := (h parts hrule).directory.mp ⟨es, hleads⟩
    exact List.mem_map.mpr ⟨(parts, .directory es'), mem_ignoreFiles.mpr ⟨hrule, hleads'⟩, rfl⟩

/-- Trees that agree at the places of ignore files have the same rules. -/
theorem ignorePatterns_eq_of_agreeAt (ht : WellFormed t) (ht' : WellFormed t') (root : Path)
    (h : ∀ parts, isRuleFile parts = true → AgreeAt t t' parts) :
    ignorePatterns root t = ignorePatterns root t' := by
  have hsorted {t : FileTree} (ht : WellFormed t) :
      ((ignoreFiles t).map (ruleFile root)).Pairwise fun a b ↦ a.1 < b.1 :=
    List.pairwise_map.mpr (pairwise_ignoreFiles ht)
  refine ignorePatterns_eq_of_map_ruleFile (eq_of_pairwise_lt Prod.fst (hsorted ht) (hsorted ht') ?_)
  intro x
  constructor
  · exact mem_map_ruleFile_of_agreeAt h
  · exact mem_map_ruleFile_of_agreeAt fun parts hrule ↦ (h parts hrule).symm

/-! ## The same sources -/

variable {fs fs' : FileSystem} {p : Path} {es es' : List (Text × FileTree)} {found : List (List Text)}

theorem pairwise_lt_sourcesIn (ps : List Ignore.Pattern) (hes : WellFormed (.directory es)) :
    ((sourcesIn ps (.directory es)).mergeSort partsLe).Pairwise (· < ·) :=
  pairwise_lt_mergeSort_partsLe ((sourcesIn_perm ps es).nodup_iff.mpr (nodup_sourcesAt ps hes))

/-- Trees with the same rules and the same visible files have the same sources. -/
theorem sources_eq_of_visible_iff (hfs : WellFormed fs.root) (hfs' : WellFormed fs'.root)
    (hp : fs.find? p = some (.directory es)) (hp' : fs'.find? p = some (.directory es'))
    (hrules : ignorePatterns p (.directory es) = ignorePatterns p (.directory es'))
    (hvisible : ∀ ps parts,
      Visible ps [] (.directory es) parts ↔ Visible ps [] (.directory es') parts) :
    sources fs p = sources fs' p := by
  have hfound (ps : List Ignore.Pattern) : (sourcesIn ps (.directory es)).mergeSort partsLe =
      (sourcesIn ps (.directory es')).mergeSort partsLe := by
    refine eq_of_pairwise_lt id (pairwise_lt_sourcesIn ps (FileSystem.wellFormed_find? hfs hp))
      (pairwise_lt_sourcesIn ps (FileSystem.wellFormed_find? hfs' hp')) fun parts ↦ ?_
    rw [List.mem_mergeSort, List.mem_mergeSort, mem_sourcesIn, mem_sourcesIn]
    exact hvisible ps parts
  rw [sources_of_directory hp, sources_of_directory hp', hrules]
  simp only [hfound]

/-- The sources that are found, in order, are what some patterns leave visible. -/
theorem exists_of_sources_eq_ok (hfs : WellFormed fs.root) (hp : fs.find? p = some (.directory es))
    (h : sources fs p = .ok found) :
    found.Pairwise (· < ·) ∧
      ∃ ps, ∀ parts, parts ∈ found ↔ Visible ps [] (.directory es) parts := by
  rw [sources_of_directory hp] at h
  obtain ⟨ps, -, rfl⟩ := Except.map_eq_ok_iff.mp h
  refine ⟨pairwise_lt_sourcesIn ps (FileSystem.wellFormed_find? hfs hp), ps, fun parts ↦ ?_⟩
  rw [List.mem_mergeSort, mem_sourcesIn]

/-! ## Changing the content of a file -/

/-- The trees have a file each where the components lead, and agree everywhere else. -/
structure ContentChanged (parts : List Text) (t t' : FileTree) : Prop where
  before : ∃ content, Leads t parts (.file content)
  after : ∃ content, Leads t' parts (.file content)
  elsewhere : ∀ q, q ≠ parts → AgreeAt t t' q

theorem ContentChanged.symm (h : ContentChanged parts t t') : ContentChanged parts t' t :=
  ⟨h.after, h.before, fun q hq ↦ (h.elsewhere q hq).symm⟩

theorem ContentChanged.visible {ps : List Ignore.Pattern} (h : ContentChanged parts t t')
    {q : List Text} (hq : Visible ps [] t q) : Visible ps [] t' q := by
  refine { hq with isFile := ?_ }
  by_cases hparts : q = parts
  · exact hparts ▸ h.after
  · obtain ⟨content, hleads⟩ := hq.isFile
    exact ⟨content, (h.elsewhere q hparts).file.mp hleads⟩

/-- An ignore file has no known suffix, so it is no source. -/
theorem isRuleFile_eq_false {ps : List Ignore.Pattern} (h : Visible ps [] t parts) :
    isRuleFile parts = false := by
  rw [← Bool.not_eq_true]
  intro hrule
  have hname : parts.getLast? = some ignoreFileName := by
    simpa using (Bool.and_eq_true_iff.mp hrule).1
  have hknown := h.known
  rw [List.nil_append, List.getLastD_eq_getLast?, hname] at hknown
  exact absurd hknown (by decide)

/-- The sources stay the same when the content of one of them changes. -/
theorem ContentChanged.sources_eq (hfs : WellFormed fs.root) (hfs' : WellFormed fs'.root)
    (hp : fs.find? p = some (.directory es)) (hp' : fs'.find? p = some (.directory es'))
    (h : ContentChanged parts (.directory es) (.directory es')) {ps : List Ignore.Pattern}
    (hparts : Visible ps [] (.directory es) parts) : sources fs p = sources fs' p := by
  refine sources_eq_of_visible_iff hfs hfs' hp hp' ?_ fun ps q ↦ ⟨h.visible, h.symm.visible⟩
  refine ignorePatterns_eq_of_agreeAt (FileSystem.wellFormed_find? hfs hp) (FileSystem.wellFormed_find? hfs' hp') p fun q hq ↦ ?_
  apply h.elsewhere
  rintro rfl
  rw [isRuleFile_eq_false hparts] at hq
  cases hq

end CodeHealth.Project
