import CodeHealth.Proofs.Command.Outcome
import CodeHealth.Proofs.Project.Agreement
import CodeHealth.Proofs.Source.Units
import CodeHealth.Proofs.Text.Utf8

/-!
# An analysis is the union of its sources

What is reported about a source depends on its label and its content alone.  An analysis puts these
reports one after the other, in the order of the sources; so when the content of one source changes,
what is reported under the labels of the others stays as it is.
-/

namespace CodeHealth

/-- No name in the tree holds a slash. -/
def FileTree.SlashFree (t : FileTree) : Prop :=
  ∀ parts u, Leads t parts u → ∀ name ∈ parts, '/' ∉ name

namespace Command

open FileTree Project

variable {files files' : FileSystem} {words : List Text} {a : AnalyzeArguments} {r : Reviewer Float}
  {root : Path} {es es' : List (Text × FileTree)} {sources : List (List Text)} {parts : List Text}

/-! ## The report of one source -/

/-- What the content of a source is reported with under a label: one error if it is no encoding of a
text, and otherwise what a review of the text finds, on its lines. -/
inductive IsReport (r : Reviewer Float) (label : Text) (language : Language)
    (content : Text.Bytes) : List Located × List FileError → Prop
  | undecodable {e : Text.DecodeFault} (hinvalid : ∀ t, Text.encode t ≠ content)
      (hfault : Text.decode content = .error e) :
      IsReport r label language content ([], [⟨label, e.message.toList⟩])
  | decoded {t : Text} {findings : List Finding} {errors : List FileError}
      (hvalid : Text.encode t = content)
      (hreview : r.reviewFile t.unifyNewlines (some language.name.toList) label =
        (findings, errors)) :
      IsReport r label language content
        (findings.map (Finding.locate label t.unifyNewlines), errors)

theorem isReport_reviewSource (r : Reviewer Float) (label : Text) (language : Language)
    (content : Text.Bytes) :
    IsReport r label language content (reviewSource r label language (.file content)) := by
  rw [reviewSource, textOf, Text.ofFile]
  cases h : Text.decode content with
  | error e => exact .undecodable (Text.encode_ne_of_decode_eq_error h) h
  | ok t => exact .decoded (Text.decode_eq_ok_iff.mp h) rfl

theorem IsReport.eq_reviewSource {label : Text} {language : Language} {content : Text.Bytes}
    {report : List Located × List FileError} (h : IsReport r label language content report) :
    report = reviewSource r label language (.file content) := by
  rw [reviewSource, textOf, Text.ofFile]
  cases h with
  | undecodable _ hfault => rw [hfault]; rfl
  | decoded hvalid hreview =>
    rw [Text.decode_eq_ok_iff.mpr hvalid]
    simp only [Except.map, hreview]

theorem read_of_reviewer {b : ReviewArguments} (h : reviewer b = .ok r) : r.read = readDocument := by
  simp only [reviewer, bind, Except.bind] at h
  split at h
  · cases h
  · split at h
    · cases h
    · cases h
      rfl

/-- A document in a known language is always read. -/
theorem errors_reviewFile (hread : r.read = readDocument) (t label : Text) (language : Language) :
    (r.reviewFile t (some language.name.toList) label).2 = [] := by
  simp [Reviewer.reviewFile, hread, readDocument, Language.ofName?_name]

/-- A report is about its label only. -/
theorem IsReport.file_eq {label : Text} {language : Language} {content : Text.Bytes}
    {report : List Located × List FileError} (hread : r.read = readDocument)
    (h : IsReport r label language content report) :
    (∀ f ∈ report.1, f.file = label) ∧ ∀ e ∈ report.2, e.file = label := by
  cases h with
  | undecodable => simp
  | @decoded t findings errors _ hreview =>
    constructor
    · intro f hf
      obtain ⟨g, -, rfl⟩ := List.mem_map.mp hf
      rfl
    · have herrors : errors = [] := by
        rw [← errors_reviewFile hread t.unifyNewlines label language, hreview]
      simp [herrors]

/-! ## The reports of the sources -/

/-- The report of the source that components lead to below a path. -/
def reportOf (r : Reviewer Float) (files : FileSystem) (root : Path) (parts : List Text) :
    List Located × List FileError :=
  match files.find? (root.append parts), Language.ofFileName? (root.append parts).name with
  | some tree, some language => reviewSource r (labelOf root parts) language tree
  | _, _ => ([], [])

theorem reviewSources_eq (r : Reviewer Float) (files : FileSystem) (root : Path)
    (sources : List (List Text)) :
    reviewSources r files root sources =
      ((sources.map (reportOf r files root)).flatMap Prod.fst,
        (sources.map (reportOf r files root)).flatMap Prod.snd) :=
  rfl

/-- The components lead to a source below the path, and this is its report, under its own label. -/
structure ReportsAt (r : Reviewer Float) (files : FileSystem) (root : Path) (parts : List Text)
    (report : List Located × List FileError) : Prop where
  content : ∃ content language, files.find? (root.append parts) = some (.file content) ∧
    Language.ofFileName? (parts.getLastD []) = some language ∧
    IsReport r (Path.joinParts parts) language content report
  findings : ∀ f ∈ report.1, f.file = Path.joinParts parts
  errors : ∀ e ∈ report.2, e.file = Path.joinParts parts

theorem reportsAt_reportOf (hread : r.read = readDocument) (hfiles : WellFormed files.root)
    (hroot : files.find? root = some (.directory es)) {ps : List Ignore.Pattern}
    (hparts : Visible ps [] (.directory es) parts) :
    ReportsAt r files root parts (reportOf r files root parts) := by
  obtain ⟨content, hleads⟩ := hparts.isFile
  obtain ⟨language, hlanguage⟩ := Option.isSome_iff_exists.mp hparts.known
  rw [List.nil_append] at hlanguage
  have hne := hleads.ne_nil
  have hfind := FileSystem.find?_append_of_leads hfiles hroot hleads
  have hreport :
      IsReport r (Path.joinParts parts) language content (reportOf r files root parts) := by
    rw [reportOf, hfind, root.name_append hne, hlanguage, labelOf, if_neg (by simpa using hne)]
    exact isReport_reviewSource r _ language content
  have hfile := hreport.file_eq hread
  exact ⟨⟨content, language, hfind, hlanguage, hreport⟩, hfile.1, hfile.2⟩

theorem reportOf_eq_of_agreeAt (hfiles : WellFormed files.root) (hfiles' : WellFormed files'.root)
    (hroot : files.find? root = some (.directory es))
    (hroot' : files'.find? root = some (.directory es')) {ps : List Ignore.Pattern}
    (h : AgreeAt (.directory es) (.directory es') parts)
    (hparts : Visible ps [] (.directory es) parts) :
    reportOf r files' root parts = reportOf r files root parts := by
  obtain ⟨content, hleads⟩ := hparts.isFile
  rw [reportOf, reportOf, FileSystem.find?_append_of_leads hfiles hroot hleads,
    FileSystem.find?_append_of_leads hfiles' hroot' (h.file.mp hleads)]

/-- If the reports of one source alone differ, what stands under other labels is the same. -/
theorem filter_flatMap_eq_of_ne {β : Type} (file : β → Text) {report report' : List Text → List β}
    {label : Text} (h : ∀ q ∈ sources, q ≠ parts → report' q = report q)
    (hlabel : ∀ x ∈ report parts, file x = label) (hlabel' : ∀ x ∈ report' parts, file x = label) :
    (sources.flatMap report').filter (fun x ↦ file x ≠ label) =
      (sources.flatMap report).filter (fun x ↦ file x ≠ label) := by
  rw [List.filter_flatMap, List.filter_flatMap]
  apply List.flatMap_congr
  intro q hq
  by_cases hparts : q = parts
  · subst hparts
    rw [List.filter_eq_nil_iff.mpr (by simpa using hlabel'),
      List.filter_eq_nil_iff.mpr (by simpa using hlabel)]
  · rw [h q hq hparts]

/-! ## The analysis of a directory -/

theorem nodup_map_joinParts (hslash : SlashFree (.directory es)) {ps : List Ignore.Pattern}
    (hsorted : sources.Pairwise (· < ·))
    (hvisible : ∀ parts ∈ sources, Visible ps [] (.directory es) parts) :
    (sources.map Path.joinParts).Nodup := by
  refine List.Nodup.map_on (fun p hp q hq heq ↦ ?_) (hsorted.imp fun hlt ↦ hlt.ne)
  obtain ⟨_, hleads⟩ := (hvisible p hp).isFile
  obtain ⟨_, hleads'⟩ := (hvisible q hq).isFile
  exact Path.eq_of_joinParts_eq hleads.ne_nil hleads'.ne_nil (hslash _ _ hleads)
    (hslash _ _ hleads') heq

/-- The sources below a directory have different labels, and what is reported about them is the
report of each, in their order; and if the content of one source changes, everything that is
reported under the labels of the others stays as it is. -/
theorem analyze_eq_union (hfiles : WellFormed files.root)
    (hparse : Arguments.parse? words = some (.analyze a)) (hreviewer : reviewer a.review = .ok r)
    (hroot : files.find? (Path.ofText a.path) = some (.directory es))
    (hslash : SlashFree (.directory es))
    (hsources : Project.sources files (Path.ofText a.path) = .ok sources) :
    (sources.map Path.joinParts).Nodup ∧
    ∃ reports, List.Forall₂ (ReportsAt r files (Path.ofText a.path)) sources reports ∧
      Reviewed files words a (reports.flatMap Prod.fst) (reports.flatMap Prod.snd) ∧
      (∀ console, run console files words =
        deliver console files a (reports.flatMap Prod.fst) (reports.flatMap Prod.snd)) ∧
      ∀ parts ∈ sources, ∀ files' es', WellFormed files'.root →
        files'.find? (Path.ofText a.path) = some (.directory es') →
        ContentChanged parts (.directory es) (.directory es') →
        ∃ findings errors, Reviewed files' words a findings errors ∧
          findings.filter (fun f ↦ f.file ≠ Path.joinParts parts) =
            (reports.flatMap Prod.fst).filter (fun f ↦ f.file ≠ Path.joinParts parts) ∧
          errors.filter (fun e ↦ e.file ≠ Path.joinParts parts) =
            (reports.flatMap Prod.snd).filter (fun e ↦ e.file ≠ Path.joinParts parts) := by
  obtain ⟨hsorted, ps, hmem⟩ := exists_of_sources_eq_ok hfiles hroot hsources
  have hread := read_of_reviewer hreviewer
  have hvisible {q : List Text} (hq : q ∈ sources) : Visible ps [] (.directory es) q :=
    (hmem q).mp hq
  have hreviewed : Reviewed files words a _ _ :=
    ⟨hparse, r, sources, hreviewer, hsources, reviewSources_eq r files _ sources⟩
  refine ⟨nodup_map_joinParts hslash hsorted fun _ ↦ hvisible,
    sources.map (reportOf r files (Path.ofText a.path)), ?_, hreviewed, hreviewed.run_eq, ?_⟩
  · rw [List.forall₂_map_right_iff, List.forall₂_same]
    exact fun q hq ↦ reportsAt_reportOf hread hfiles hroot (hvisible hq)
  · intro parts hparts files' es' hfiles' hroot' hchanged
    have hsources' := (hchanged.sources_eq hfiles hfiles' hroot hroot' (hvisible hparts)).symm.trans
      hsources
    have hreviewed' : Reviewed files' words a _ _ :=
      ⟨hparse, r, sources, hreviewer, hsources', reviewSources_eq r files' _ sources⟩
    have hsame (q : List Text) (hq : q ∈ sources) (hne : q ≠ parts) :=
      reportOf_eq_of_agreeAt (r := r) hfiles hfiles' hroot hroot' (hchanged.elsewhere q hne)
        (hvisible hq)
    have hreport := reportsAt_reportOf hread hfiles hroot (hvisible hparts)
    have hreport' := reportsAt_reportOf hread hfiles' hroot' (hchanged.visible (hvisible hparts))
    refine ⟨_, _, hreviewed', ?_, ?_⟩
    · rw [List.flatMap_map, List.flatMap_map]
      refine filter_flatMap_eq_of_ne _ (fun q hq hne ↦ ?_) hreport.findings hreport'.findings
      exact congrArg Prod.fst (hsame q hq hne)
    · rw [List.flatMap_map, List.flatMap_map]
      refine filter_flatMap_eq_of_ne _ (fun q hq hne ↦ ?_) hreport.errors hreport'.errors
      exact congrArg Prod.snd (hsame q hq hne)

/-- A source with a plain function, and one with the given content. -/
def twoSources (content : Text.Bytes) : List (Text × FileTree) :=
  [(['a', '.', 't', 's'], .file plainFunction), (['b', '.', 't', 's'], .file content)]

/-- These sources in the directory `p`. -/
def twoSourcesIn (content : Text.Bytes) : FileSystem :=
  .ofTree (.directory [(['p'], .directory (twoSources content))])

theorem wellFormed_twoSourcesIn (content : Text.Bytes) : WellFormed (twoSourcesIn content).root := by
  refine .directory (by simp [Assoc.keys]) (by simp [Assoc.keys]) ?_
  rw [List.forall_mem_singleton]
  exact .directory (by simp [twoSources, Assoc.keys]) (by simp [twoSources, Assoc.keys])
    (by simp [twoSources, WellFormed.file])

theorem leads_twoSources_iff {content : Text.Bytes} {u : FileTree} :
    Leads (.directory (twoSources content)) parts u ↔
      (parts = [] ∧ u = .directory (twoSources content)) ∨
      (parts = [['a', '.', 't', 's']] ∧ u = .file plainFunction) ∨
      (parts = [['b', '.', 't', 's']] ∧ u = .file content) := by
  cases parts with
  | nil => simp [leads_nil_iff]
  | cons name parts =>
    rw [leads_cons_iff]
    simp [twoSources, or_and_right, exists_or, leads_file_iff, and_assoc]

theorem slashFree_twoSources (content : Text.Bytes) :
    SlashFree (.directory (twoSources content)) := by
  intro parts u hleads
  rcases leads_twoSources_iff.mp hleads with ⟨rfl, -⟩ | ⟨rfl, -⟩ | ⟨rfl, -⟩ <;> decide

theorem contentChanged_twoSources (content content' : Text.Bytes) :
    ContentChanged [['b', '.', 't', 's']] (.directory (twoSources content))
      (.directory (twoSources content')) where
  before := ⟨content, by simp [leads_twoSources_iff]⟩
  after := ⟨content', by simp [leads_twoSources_iff]⟩
  elsewhere q hq := ⟨by simp [leads_twoSources_iff, hq], by simp [leads_twoSources_iff, hq]⟩

theorem sources_twoSourcesIn (content : Text.Bytes) :
    Project.sources (twoSourcesIn content) (Path.ofText ['p']) =
      .ok [[['a', '.', 't', 's']], [['b', '.', 't', 's']]] := by
  have hfiles : ignoreFiles (.directory (twoSources content)) = [] := List.mergeSort_nil
  have hrules : ignorePatterns (Path.ofText ['p']) (.directory (twoSources content)) = .ok [] := by
    rw [ignorePatterns, hfiles]
    rfl
  rw [sources_of_directory rfl, hrules]
  exact congrArg Except.ok
    ((mergeSort_pair [['a', '.', 't', 's']] [['b', '.', 't', 's']]).trans (if_pos (by decide)))

/-- A review in which no line is allowed. -/
def noLines : List Text :=
  ["analyze", "--path", "p", "--max-lines", "0"].map String.toList

def noLinesReviewer : Reviewer Float where
  thresholds := { Thresholds.standard with maxLines := 0 }
  severity := .warning
  taxonomy := .standard

theorem exists_mem_reviewSource_plainFunction :
    ∃ f, f ∈ (reviewSource noLinesReviewer (Path.joinParts [['a', '.', 't', 's']]) .typescript
      (.file plainFunction)).1 := by
  have hne : (reviewSource noLinesReviewer (Path.joinParts [['a', '.', 't', 's']]) .typescript
      (.file plainFunction)).1.isEmpty = false := by decide +kernel
  exact List.exists_mem_of_ne_nil _ (by simpa using hne)

/-- The second source cannot be decoded.  When it is made empty, its error is gone, and what is found
in the first source stays. -/
theorem analyze_eq_union_twoSources :
    ∃ a reports findings errors,
      List.Forall₂ (ReportsAt noLinesReviewer (twoSourcesIn [255]) ⟨[], [['p']]⟩)
        [[['a', '.', 't', 's']], [['b', '.', 't', 's']]] reports ∧
      Reviewed (twoSourcesIn []) noLines a findings errors ∧
      findings.filter (fun f ↦ f.file ≠ ['b', '.', 't', 's']) =
        (reports.flatMap Prod.fst).filter (fun f ↦ f.file ≠ ['b', '.', 't', 's']) ∧
      errors.filter (fun e ↦ e.file ≠ ['b', '.', 't', 's']) =
        (reports.flatMap Prod.snd).filter (fun e ↦ e.file ≠ ['b', '.', 't', 's']) ∧
      ∃ f ∈ findings, f.file = ['a', '.', 't', 's'] := by
  obtain ⟨a, hparse, hpath, hreviewer⟩ :
      ∃ a, Arguments.parse? noLines = some (.analyze a) ∧
        Path.ofText a.path = ⟨[], [['p']]⟩ ∧ reviewer a.review = .ok noLinesReviewer :=
    ⟨_, rfl, rfl, rfl⟩
  have hroot (content : Text.Bytes) :
      (twoSourcesIn content).find? (Path.ofText a.path) = some (.directory (twoSources content)) := by
    rw [hpath]
    rfl
  have hsources : Project.sources (twoSourcesIn [255]) (Path.ofText a.path) =
      .ok [[['a', '.', 't', 's']], [['b', '.', 't', 's']]] := by
    rw [hpath]
    exact sources_twoSourcesIn [255]
  obtain ⟨-, reports, hreports, -, -, hframe⟩ := analyze_eq_union (wellFormed_twoSourcesIn [255])
    hparse hreviewer (hroot [255]) (slashFree_twoSources [255]) hsources
  obtain ⟨findings, errors, hreviewed, hfindings, herrors⟩ := hframe [['b', '.', 't', 's']]
    (by simp) _ _ (wellFormed_twoSourcesIn []) (hroot []) (contentChanged_twoSources _ _)
  rw [hpath] at hreports
  obtain ⟨f, hf, hfile⟩ : ∃ f ∈ reports.flatMap Prod.fst, f.file = ['a', '.', 't', 's'] := by
    obtain ⟨report, reports, hfirst, -, rfl⟩ := List.forall₂_cons_left_iff.mp hreports
    obtain ⟨f, hf⟩ := exists_mem_reviewSource_plainFunction
    obtain ⟨content, language, hfind, hlanguage, hreport⟩ := hfirst.content
    obtain rfl : plainFunction = content := FileTree.file.inj (Option.some.inj hfind)
    obtain rfl : .typescript = language := Option.some.inj hlanguage
    rw [← hreport.eq_reviewSource] at hf
    exact ⟨f, by simp [hf], hfirst.findings f hf⟩
  have hkept : f ∈ findings.filter fun f ↦ f.file ≠ Path.joinParts [['b', '.', 't', 's']] := by
    rw [hfindings]
    exact List.mem_filter.mpr ⟨hf, by rw [hfile]; decide⟩
  exact ⟨a, reports, findings, errors, hreports, hreviewed, hfindings, herrors, f,
    (List.mem_filter.mp hkept).1, hfile⟩

end Command

end CodeHealth
