import CodeHealth.Command.Run
import CodeHealth.Proofs.Except
import CodeHealth.Proofs.Project.Discovery
import CodeHealth.Proofs.Project.RuleOrder
import CodeHealth.Proofs.Project.Writing
import CodeHealth.Report.Terminal

/-!
# How commands end

`Ends` lists the ways in which a run can end.  From it, a run comes to an exit code unless a rule is
not understood, a part of the report is not shown, or a path is not looked up or written to because
of its names; the code is one exactly if a strict report with findings was delivered; and a run that
fails has left all files as they were and shown nothing but the help that it was asked for.
-/

namespace CodeHealth

/-! ## Rules that are not understood -/

namespace Ignore

/-- Patterns are not read if and only if one of the lines is not understood. -/
theorem exists_patterns_eq_error_iff {lines : List Text} :
    (∃ e, patterns lines = .error e) ↔ ∃ line ∈ lines, ∃ e, Pattern.parse line = .error e := by
  induction lines with
  | nil => simp [patterns]
  | cons line lines ih =>
    rw [List.exists_mem_cons_iff, ← ih, patterns]
    cases hparse : Pattern.parse line with
    | error e => exact iff_of_true ⟨e, rfl⟩ (.inl ⟨e, rfl⟩)
    | ok p =>
      cases patterns lines with
      | error e => exact iff_of_true ⟨e, rfl⟩ (.inr ⟨e, rfl⟩)
      | ok ps => exact iff_of_false (by rintro ⟨e, ⟨⟩⟩) (by simp)

end Ignore

namespace Project

theorem exists_ignorePatterns_eq_pattern_iff {p : Path} {t : FileTree} :
    (∃ e, ignorePatterns p t = .error (.pattern e)) ↔
      ∃ ls, ruleLines p t = .ok ls ∧ ∃ x ∈ ls, ∃ e, Ignore.Pattern.parse x.line = .error e := by
  rw [ignorePatterns_eq]
  cases ruleLines p t with
  | error e => exact iff_of_false (by rintro ⟨e, ⟨⟩⟩) (by simp)
  | ok ls =>
    have hlines : (∃ e, Ignore.patterns (ls.map RuleLine.line) = .error e) ↔
        ∃ x ∈ ls, ∃ e, Ignore.Pattern.parse x.line = .error e := by
      simp [Ignore.exists_patterns_eq_error_iff]
    simp only [Except.ok.injEq, exists_eq_left', ← hlines]
    exact exists_congr fun e ↦ Except.mapError_eq_error_iff fun _ _ ↦ DiscoveryFault.pattern.inj

/-- Only the rules of a directory can be at fault, once they are read. -/
theorem exists_sources_eq_pattern_iff {fs : FileSystem} {p : Path} :
    (∃ e, sources fs p = .error (.pattern e)) ↔
      ∃ es, fs.find? p = some (.directory es) ∧
        ∃ e, ignorePatterns p (.directory es) = .error (.pattern e) := by
  constructor
  · rintro ⟨e, h⟩
    rcases hfind : fs.find? p with _ | ⟨content | es⟩
    · rw [sources, hfind] at h
      simp only at h
      split at h <;> cases h
    · rw [sources, hfind] at h
      have hlanguage := Except.map_eq_error_iff.mp h
      rw [languageOf] at hlanguage
      split at hlanguage <;> cases hlanguage
    · rw [sources_of_directory hfind, Except.map_eq_error_iff] at h
      exact ⟨es, rfl, e, h⟩
  · rintro ⟨es, hfind, e, h⟩
    exact ⟨e, by rw [sources_of_directory hfind, Except.map_eq_error_iff, h]⟩

end Project

namespace Command

variable {console : Report.Console} {files : FileSystem} {words : List Text} {a : AnalyzeArguments}
  {b : UnitArguments} {findings : List Located} {errors : List FileError} {o : Outcome}

/-! ## All endings -/

theorem parse?_eq_some_iff {args : Arguments} :
    Arguments.parse? words = some args ↔ Arguments.parse words = .ok args := by
  rw [Arguments.parse?]
  cases Arguments.parse words <;> simp [Except.toOption]

/-- The sources that `analyze` is asked for have these findings and errors. -/
structure Reviewed (files : FileSystem) (words : List Text) (a : AnalyzeArguments)
    (findings : List Located) (errors : List FileError) : Prop where
  parsed : Arguments.parse? words = some (.analyze a)
  found : ∃ r sources, reviewer a.review = .ok r ∧
    Project.sources files (Path.ofText a.path) = .ok sources ∧
    reviewSources r files (Path.ofText a.path) sources = (findings, errors)

/-- The lines that `unit` is asked for have these findings and errors. -/
structure UnitReviewed (files : FileSystem) (words : List Text) (b : UnitArguments)
    (findings : List Located) (errors : List FileError) : Prop where
  parsed : Arguments.parse? words = some (.unit b)
  found : ∃ r p, reviewer b.review = .ok r ∧ findPlace files b = .ok p ∧
    (reviewPlace r (Path.ofText b.path).toText p).1.map
      (Finding.locate (Path.ofText b.path).toText p.text) = findings ∧
    (reviewPlace r (Path.ofText b.path).toText p).2 = errors

/-- The ways in which a run can end. -/
inductive Ends (console : Report.Console) (files : FileSystem) (words : List Text) :
    Except Fault Outcome → Prop
  | stopped {stop : Stop} (hparse : Arguments.parse words = .error stop) :
      Ends console files words (.ok (stop.outcome files))
  | configuration {args : Arguments} {message : String}
      (hparse : Arguments.parse? words = some args)
      (hreviewer : reviewer args.review = .error message) :
      Ends console files words (.ok (failure files s!"Invalid configuration: {message}"))
  | faultyRule {a : AnalyzeArguments} {r : Reviewer Float} {e : Ignore.PatternFault}
      (hparse : Arguments.parse? words = some (.analyze a)) (hreviewer : reviewer a.review = .ok r)
      (hsources : Project.sources files (Path.ofText a.path) = .error (.pattern e)) :
      Ends console files words (.error (.pattern e))
  | undiscovered {a : AnalyzeArguments} {r : Reviewer Float} {e : Project.DiscoveryFault}
      (hparse : Arguments.parse? words = some (.analyze a)) (hreviewer : reviewer a.review = .ok r)
      (hsources : Project.sources files (Path.ofText a.path) = .error e) (message : String) :
      Ends console files words (.ok (failure files message))
  | reviewed {a : AnalyzeArguments} {findings : List Located} {errors : List FileError}
      (h : Reviewed files words a findings errors) :
      Ends console files words (deliver console files a findings errors)
  | refused {b : UnitArguments} {r : Reviewer Float} {message : Text}
      (hparse : Arguments.parse? words = some (.unit b)) (hreviewer : reviewer b.review = .ok r)
      (hplace : findPlace files b = .error (.refused message)) :
      Ends console files words (.error (.lookup message))
  | misplaced {b : UnitArguments} {r : Reviewer Float} {e : UnitFault}
      (hparse : Arguments.parse? words = some (.unit b)) (hreviewer : reviewer b.review = .ok r)
      (hplace : findPlace files b = .error e) :
      Ends console files words (.ok (failure files e.message))
  | unitReviewed {b : UnitArguments} {findings : List Located} {errors : List FileError}
      (h : UnitReviewed files words b findings errors) :
      Ends console files words (display console files b.format 0 findings errors)

theorem Reviewed.run_eq (h : Reviewed files words a findings errors) (console : Report.Console) :
    run console files words = deliver console files a findings errors := by
  obtain ⟨hparse, r, sources, hreviewer, hsources, hreview⟩ := h
  simp only [run, parse?_eq_some_iff.mp hparse, Arguments.review, hreviewer, analyze, hsources,
    hreview]

theorem UnitReviewed.run_eq (h : UnitReviewed files words b findings errors)
    (console : Report.Console) :
    run console files words = display console files b.format 0 findings errors := by
  obtain ⟨hparse, r, p, hreviewer, hplace, rfl, rfl⟩ := h
  simp only [run, parse?_eq_some_iff.mp hparse, Arguments.review, hreviewer, unit, hplace]

theorem ends_run (console : Report.Console) (files : FileSystem) (words : List Text) :
    Ends console files words (run console files words) := by
  cases hparse : Arguments.parse words with
  | error stop =>
    simp only [run, hparse]
    exact .stopped hparse
  | ok args =>
    have hparse? := parse?_eq_some_iff.mpr hparse
    cases hreviewer : reviewer args.review with
    | error message =>
      simp only [run, hparse, hreviewer]
      exact .configuration hparse? hreviewer
    | ok r =>
      cases args with
      | analyze a =>
        cases hsources : Project.sources files (Path.ofText a.path) with
        | error e =>
          simp only [run, hparse, hreviewer, analyze, hsources]
          cases e with
          | pattern e => exact .faultyRule hparse? hreviewer hsources
          | missing path => exact .undiscovered hparse? hreviewer hsources _
          | unsupported path => exact .undiscovered hparse? hreviewer hsources _
          | unreadable e => exact .undiscovered hparse? hreviewer hsources _
        | ok sources =>
          have h : Reviewed files words a _ _ := ⟨hparse?, r, sources, hreviewer, hsources, rfl⟩
          rw [h.run_eq]
          exact .reviewed h
      | unit b =>
        cases hplace : findPlace files b with
        | error e =>
          simp only [run, hparse, hreviewer, unit, hplace]
          split
          · next message heq =>
            obtain rfl := Except.error.inj heq
            exact .refused hparse? hreviewer hplace
          · next e' _ heq =>
            obtain rfl := Except.error.inj heq
            exact .misplaced hparse? hreviewer hplace
          · next heq => cases heq
        | ok p =>
          have h : UnitReviewed files words b _ _ := ⟨hparse?, r, p, hreviewer, hplace, rfl, rfl⟩
          rw [h.run_eq]
          exact .unitReviewed h

/-! ## Reports -/

theorem display_eq_ok_iff {format : Format} {code : Nat} :
    display console files format code findings errors = .ok o ↔
      ∃ shown, report console format findings errors = .ok shown ∧
        ⟨code, shown, errors.flatMap errorLine, files⟩ = o := by
  rw [display]
  cases report console format findings errors <;> simp

/-- A report is not shown if and only if it has a part that is not. -/
theorem exists_display_eq_error_iff {format : Format} {code : Nat} :
    (∃ e, display console files format code findings errors = .error e) ↔
      format = .table ∧ ∃ part ∈ Report.parts findings, ∃ e, console.print part = .error e := by
  rw [display]
  cases format with
  | json => exact iff_of_false (by rintro ⟨e, ⟨⟩⟩) (by rintro ⟨⟨⟩, -⟩)
  | table =>
    rw [report, Report.table, ← Except.exists_mapM_eq_error_iff]
    cases (Report.parts findings).mapM console.print with
    | error e => exact iff_of_true ⟨_, rfl⟩ ⟨rfl, e, rfl⟩
    | ok shown => exact iff_of_false (by rintro ⟨e, ⟨⟩⟩) (by rintro ⟨-, e, ⟨⟩⟩)

/-- The report is in the file that it goes to, or shown. -/
def Delivered (console : Report.Console) (a : AnalyzeArguments) (findings : List Located)
    (errors : List FileError) (o : Outcome) : Prop :=
  match a.reportFile? with
  | some file => o.files.find? (Path.ofText file) =
      some (.file (Text.encode (Report.json findings errors)))
  | none => report console a.format findings errors = .ok o.stdout

/-- Either the report is delivered, or nothing is shown and all files stay as they are. -/
theorem deliver_spec (hroot : files.root.isDirectory = true)
    (ho : deliver console files a findings errors = .ok o) :
    (Delivered console a findings errors o ∧
      o.exitCode = if a.strict && !findings.isEmpty then 1 else 0) ∨
    (¬ Delivered console a findings errors o ∧
      o.exitCode = 2 ∧ o.stdout = [] ∧ FileTree.SameFiles files.root o.files.root) := by
  unfold Delivered
  cases hfile : a.reportFile? with
  | none =>
    simp only [deliver, hfile] at ho
    obtain ⟨shown, hreport, rfl⟩ := display_eq_ok_iff.mp ho
    exact .inl ⟨hreport, rfl⟩
  | some file =>
    rcases hwrite : files.root.write (files.place (Path.ofText file))
        (Text.encode (Report.json findings errors)) with ⟨left, attempt⟩
    simp only [deliver, hfile, FileSystem.write, hwrite] at ho
    cases attempt with
    | written =>
      cases ho
      exact .inl ⟨FileTree.follow_of_write_written hroot hwrite, rfl⟩
    | blocked =>
      cases ho
      exact .inr ⟨FileTree.follow_of_write_blocked hroot hwrite _, rfl, rfl,
        FileTree.sameFiles_of_write hwrite (by simp)⟩
    | invalid => cases ho

theorem deliver_exitCode_eq_one_iff (hroot : files.root.isDirectory = true)
    (ho : deliver console files a findings errors = .ok o) :
    o.exitCode = 1 ↔ a.strict = true ∧ findings ≠ [] ∧ Delivered console a findings errors o := by
  rcases deliver_spec hroot ho with ⟨hdelivered, hcode⟩ | ⟨hnot, hcode, -⟩
  · simp [hcode, hdelivered]
  · simp [hcode, hnot]

theorem deliver_exitCode_mem (ho : deliver console files a findings errors = .ok o) :
    o.exitCode ∈ [0, 1, 2] := by
  have hcode : (if a.strict && !findings.isEmpty then 1 else 0) ∈ [0, 1, 2] := by
    split <;> simp
  rw [deliver] at ho
  split at ho
  · obtain ⟨shown, -, rfl⟩ := display_eq_ok_iff.mp ho
    exact hcode
  · split at ho
    · cases ho
      exact hcode
    · cases ho
      simp
    · cases ho

theorem reportFile?_eq_none_of_table (h : a.format = .table) : a.reportFile? = none := by
  rw [AnalyzeArguments.reportFile?, h]

/-- A report is not delivered if it has a part that is not shown, or goes to a file that cannot have
its name. -/
theorem exists_deliver_eq_error_iff :
    (∃ e, deliver console files a findings errors = .error e) ↔
      (a.format = .table ∧ ∃ part ∈ Report.parts findings, ∃ e, console.print part = .error e) ∨
      ∃ file, a.reportFile? = some file ∧
        FileTree.NullOnWay files.root (files.place (Path.ofText file)) := by
  cases hfile : a.reportFile? with
  | none =>
    simp only [deliver, hfile, exists_display_eq_error_iff]
    simp
  | some file =>
    have hformat : a.format ≠ .table := by
      intro h
      rw [reportFile?_eq_none_of_table h] at hfile
      cases hfile
    rw [deliver, hfile]
    simp only [FileSystem.write, hformat, false_and, false_or, Option.some.injEq, exists_eq_left',
      ← @FileTree.write_eq_invalid_iff _ _ (Text.encode (Report.json findings errors))]
    cases (files.root.write (files.place (Path.ofText file))
      (Text.encode (Report.json findings errors))).2 <;> simp

/-! ## A run comes to an exit code -/

/-- The line is one of the rules of a directory that are to be read. -/
def MeetsRule (files : FileSystem) (words : List Text) (line : Text) : Prop :=
  ∃ a r es ls, Arguments.parse? words = some (.analyze a) ∧ reviewer a.review = .ok r ∧
    files.find? (Path.ofText a.path) = some (.directory es) ∧
    Project.ruleLines (Path.ofText a.path) (.directory es) = .ok ls ∧ ∃ x ∈ ls, x.line = line

/-- A report on these findings is to be shown as tables. -/
def ShowsTable (files : FileSystem) (words : List Text) (findings : List Located) : Prop :=
  ∃ errors, (∃ a, Reviewed files words a findings errors ∧ a.format = .table) ∨
    ∃ b, UnitReviewed files words b findings errors ∧ b.format = .table

/-- Why a run can come to no exit code: it meets a rule that is not understood, or a part of its
report is not shown, or the path of a unit is not looked up, or its report goes to a file that cannot
have its name. -/
inductive Escapes (console : Report.Console) (files : FileSystem) (words : List Text) : Prop
  | rule {line : Text} {e : Ignore.PatternFault} (h : MeetsRule files words line)
      (hfault : Ignore.Pattern.parse line = .error e)
  | part {findings : List Located} {part : Report.Part} {e : Report.ConsoleFault}
      (h : ShowsTable files words findings) (hpart : part ∈ Report.parts findings)
      (hfault : console.print part = .error e)
  | path {b : UnitArguments} {r : Reviewer Float} {message : Text}
      (hparse : Arguments.parse? words = some (.unit b)) (hreviewer : reviewer b.review = .ok r)
      (hfind : files.find? (Path.ofText b.path) = none)
      (hrefused : files.refusal? (Path.ofText b.path) = some message)
  | name {a : AnalyzeArguments} {findings : List Located} {errors : List FileError} {file : Text}
      (h : Reviewed files words a findings errors) (hfile : a.reportFile? = some file)
      (hnull : FileTree.NullOnWay files.root (files.place (Path.ofText file)))

/-- The faults of a file that is found are others. -/
theorem findPlace_eq_refused_iff {message : Text} :
    findPlace files b = .error (.refused message) ↔
      files.find? (Path.ofText b.path) = none ∧
        files.refusal? (Path.ofText b.path) = some message := by
  rcases hfind : files.find? (Path.ofText b.path) with _ | ⟨content | es⟩
  · cases hrefusal : files.refusal? (Path.ofText b.path) <;>
      simp [findPlace, hfind, hrefusal, bind, Except.bind]
  · refine iff_of_false (fun h ↦ ?_) (by simp)
    simp only [findPlace, hfind, bind, Except.bind, pure, Except.pure] at h
    split at h
    · cases htext : (FileTree.file content).textOf (Path.ofText b.path).toText with
      | error e => simp [htext, Except.mapError] at h
      | ok t =>
        cases hoffset : t.lineOffset b.line with
        | error e => simp [htext, hoffset, Except.mapError] at h
        | ok i =>
          simp only [htext, hoffset, Except.mapError] at h
          split at h
          · cases h
          · next m _ =>
            split at h
            · cases h
            · cases hstop : t.lineEndOffset m <;> simp [hstop] at h
    · cases h
  · simp [findPlace, hfind, bind, Except.bind]

/-- Nothing else keeps a run from coming to an exit code. -/
theorem exists_run_eq_error_iff :
    (∃ e, run console files words = .error e) ↔ Escapes console files words := by
  constructor
  · rintro ⟨e, h⟩
    have hends := ends_run console files words
    generalize run console files words = result at h hends
    cases hends with
    | stopped => cases h
    | configuration => cases h
    | undiscovered => cases h
    | misplaced => cases h
    | @faultyRule a r e hparse hreviewer hsources =>
      obtain ⟨es, hfind, hpatterns⟩ := Project.exists_sources_eq_pattern_iff.mp ⟨e, hsources⟩
      obtain ⟨ls, hlines, x, hx, e, hfault⟩ :=
        Project.exists_ignorePatterns_eq_pattern_iff.mp hpatterns
      exact .rule ⟨a, r, es, ls, hparse, hreviewer, hfind, hlines, x, hx, rfl⟩ hfault
    | @reviewed a findings errors hreviewed =>
      rcases exists_deliver_eq_error_iff.mp ⟨e, h⟩ with
        ⟨hformat, part, hpart, e, hfault⟩ | ⟨file, hfile, hnull⟩
      · exact .part ⟨errors, .inl ⟨a, hreviewed, hformat⟩⟩ hpart hfault
      · exact .name hreviewed hfile hnull
    | refused hparse hreviewer hplace =>
      obtain ⟨hfind, hrefused⟩ := findPlace_eq_refused_iff.mp hplace
      exact .path hparse hreviewer hfind hrefused
    | @unitReviewed b findings errors hreviewed =>
      obtain ⟨hformat, part, hpart, e, hfault⟩ := exists_display_eq_error_iff.mp ⟨e, h⟩
      exact .part ⟨errors, .inr ⟨b, hreviewed, hformat⟩⟩ hpart hfault
  · rintro (⟨⟨a, r, es, ls, hparse, hreviewer, hfind, hlines, x, hx, rfl⟩, hfault⟩ |
      ⟨⟨errors, h⟩, hpart, hfault⟩ | @⟨b, r, message, hparse, hreviewer, hfind, hrefused⟩ |
      ⟨h, hfile, hnull⟩)
    · have hpatterns :=
        Project.exists_ignorePatterns_eq_pattern_iff.mpr ⟨ls, hlines, x, hx, _, hfault⟩
      obtain ⟨e, hsources⟩ := Project.exists_sources_eq_pattern_iff.mpr ⟨es, hfind, hpatterns⟩
      exact ⟨.pattern e, by simp only [run, parse?_eq_some_iff.mp hparse, Arguments.review,
        hreviewer, analyze, hsources]⟩
    · rcases h with ⟨a, hreviewed, hformat⟩ | ⟨b, hreviewed, hformat⟩
      · rw [hreviewed.run_eq]
        exact exists_deliver_eq_error_iff.mpr (.inl ⟨hformat, _, hpart, _, hfault⟩)
      · rw [hreviewed.run_eq]
        exact exists_display_eq_error_iff.mpr ⟨hformat, _, hpart, _, hfault⟩
    · have hplace := findPlace_eq_refused_iff.mpr ⟨hfind, hrefused⟩
      exact ⟨.lookup message, by simp only [run, parse?_eq_some_iff.mp hparse, Arguments.review,
        hreviewer, unit, hplace]⟩
    · rw [h.run_eq]
      exact exists_deliver_eq_error_iff.mpr (.inr ⟨_, hfile, hnull⟩)

/-- The outcomes of a run: the command line is not run, a message says what failed, or there is a
report on the sources or on a unit. -/
theorem run_eq_ok_cases (h : run console files words = .ok o) :
    (∃ stop, Arguments.parse words = .error stop ∧ stop.outcome files = o) ∨
    (∃ args message, Arguments.parse words = .ok args ∧ failure files message = o) ∨
    (∃ a findings errors, Reviewed files words a findings errors ∧
      deliver console files a findings errors = .ok o) ∨
    ∃ b findings errors shown, UnitReviewed files words b findings errors ∧
      ⟨0, shown, errors.flatMap errorLine, files⟩ = o := by
  have hends := ends_run console files words
  generalize run console files words = result at h hends
  cases hends with
  | stopped hparse => exact .inl ⟨_, hparse, Except.ok.inj h⟩
  | configuration hparse =>
    exact .inr (.inl ⟨_, _, parse?_eq_some_iff.mp hparse, Except.ok.inj h⟩)
  | faultyRule => cases h
  | undiscovered hparse =>
    exact .inr (.inl ⟨_, _, parse?_eq_some_iff.mp hparse, Except.ok.inj h⟩)
  | reviewed hreviewed => exact .inr (.inr (.inl ⟨_, _, _, hreviewed, h⟩))
  | refused => cases h
  | misplaced hparse =>
    exact .inr (.inl ⟨_, _, parse?_eq_some_iff.mp hparse, Except.ok.inj h⟩)
  | unitReviewed hreviewed =>
    obtain ⟨shown, -, ho⟩ := display_eq_ok_iff.mp h
    exact .inr (.inr (.inr ⟨_, _, _, shown, hreviewed, ho⟩))

theorem exitCode_mem (h : run console files words = .ok o) : o.exitCode ∈ [0, 1, 2] := by
  rcases run_eq_ok_cases h with ⟨stop, -, rfl⟩ | ⟨args, message, -, rfl⟩ |
    ⟨a, findings, errors, -, ho⟩ | ⟨b, findings, errors, shown, -, rfl⟩
  · cases stop <;> simp [Stop.outcome]
  · simp [failure]
  · exact deliver_exitCode_mem ho
  · simp

/-- A project in `p` with a source and the rule `!`. -/
def faultyProject : FileSystem :=
  .ofTree (.directory [(['p'], .directory
    [(Project.ignoreFileName, .file [33, 10]), (['a', '.', 't', 's'], .file [])])])

theorem exitCode_eq_one_iff (hroot : files.root.isDirectory = true)
    (h : run console files words = .ok o) :
    o.exitCode = 1 ↔ ∃ a findings errors, Reviewed files words a findings errors ∧
      a.strict = true ∧ findings ≠ [] ∧ Delivered console a findings errors o := by
  constructor
  · intro hcode
    rcases run_eq_ok_cases h with ⟨stop, -, rfl⟩ | ⟨args, message, -, rfl⟩ |
      ⟨a, findings, errors, hreviewed, ho⟩ | ⟨b, findings, errors, shown, -, rfl⟩
    · cases stop <;> cases hcode
    · cases hcode
    · exact ⟨a, findings, errors, hreviewed, (deliver_exitCode_eq_one_iff hroot ho).mp hcode⟩
    · cases hcode
  · -- A command line is reviewed in one way only, so this report is the one of the run.
    rintro ⟨a, findings, errors, hreviewed, hstrict, hne, hdelivered⟩
    have ho : deliver console files a findings errors = .ok o := (hreviewed.run_eq console) ▸ h
    exact (deliver_exitCode_eq_one_iff hroot ho).mpr ⟨hstrict, hne, hdelivered⟩

/-- A run that fails leaves the files as they are and shows nothing, unless it was not to be run. -/
theorem sameFiles_of_exitCode_eq_two (hroot : files.root.isDirectory = true)
    (h : run console files words = .ok o) (hcode : o.exitCode = 2) :
    FileTree.SameFiles files.root o.files.root ∧
      ((∃ stop, Arguments.parse words = .error stop ∧ stop.outcome files = o) ∨ o.stdout = []) := by
  rcases run_eq_ok_cases h with ⟨stop, hparse, rfl⟩ | ⟨args, message, -, rfl⟩ |
    ⟨a, findings, errors, -, ho⟩ | ⟨b, findings, errors, shown, -, rfl⟩
  · exact ⟨by cases stop <;> exact .refl _, .inl ⟨stop, hparse, rfl⟩⟩
  · exact ⟨.refl _, .inr rfl⟩
  · rcases deliver_spec hroot ho with ⟨-, hcode'⟩ | ⟨-, -, hstdout, hsame⟩
    · rw [hcode] at hcode'
      split at hcode' <;> cases hcode'
    · exact ⟨hsame, .inr hstdout⟩
  · cases hcode

/-- The source `function f(){}`. -/
def plainFunction : Text.Bytes :=
  [102, 117, 110, 99, 116, 105, 111, 110, 32, 102, 40, 41, 123, 125]

def oneFunction : FileSystem :=
  .ofTree (.directory [(['a', '.', 't', 's'], .file plainFunction)])

/-- A strict review of this source in which no line is allowed, with the report in a file. -/
def strictReview (file : String) : List Text :=
  ["analyze", "--path", "/a.ts", "--strict", "--max-lines", "0", "--format", "json", "--output",
    file].map String.toList

end Command

end CodeHealth
