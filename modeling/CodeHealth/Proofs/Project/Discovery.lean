import CodeHealth.Project.Discovery
import CodeHealth.Proofs.Project.FileTree
import Mathlib.Data.List.Basic

/-!
# The sources of a project are found

The walk keeps a queue of directories.  What it has collected and what the directories in its queue
still hold are together the same sources at every step, each once; so in the end it has collected
the files with a known suffix that no rule rules out, neither themselves nor by a directory between
the root and them.
-/

namespace CodeHealth.Project

open FileTree
open scoped List

variable (ps : List Ignore.Pattern)

/-! ## Sources by recursion on the tree -/

mutual

/-- The sources in a tree that stands at `parts` below the root. -/
def sourcesAt (ps : List Ignore.Pattern) (parts : List Text) : FileTree → List (List Text)
  | .file _ =>
    if !Ignore.ignores ps (Path.joinParts parts) false &&
      (Language.ofFileName? (parts.getLastD [])).isSome then [parts] else []
  | .directory es =>
    if Ignore.ignores ps (Path.joinParts parts) true then [] else sourcesAmong ps parts es

/-- The sources in the entries of a directory that stands at `above`. -/
def sourcesAmong (ps : List Ignore.Pattern) (above : List Text) :
    List (Text × FileTree) → List (List Text)
  | [] => []
  | (name, t) :: es => sourcesAt ps (above ++ [name]) t ++ sourcesAmong ps above es

end

theorem sourcesAmong_eq_flatMap (above : List Text) (es : List (Text × FileTree)) :
    sourcesAmong ps above es = es.flatMap fun e ↦ sourcesAt ps (above ++ [e.1]) e.2 := by
  induction es with
  | nil => simp [sourcesAmong]
  | cons e es ih => simp [sourcesAmong, ih]

/-! ## The walk -/

namespace Pending

variable (above : List Text) (name : Text) (es : List (Text × FileTree))

theorem sources_cons_file (content : Text.Bytes) :
    sources ps ⟨above, (name, .file content) :: es⟩ =
      sourcesAt ps (above ++ [name]) (.file content) ++ sources ps ⟨above, es⟩ := by
  by_cases hign : Ignore.ignores ps (Path.joinParts (above ++ [name])) false = true
  · simp [sources, kept, sourcesAt, isDirectory, hign]
  · by_cases hlang : (Language.ofFileName? name).isSome = true
    · simp [sources, kept, sourcesAt, isDirectory, hign, hlang]
    · simp [sources, kept, sourcesAt, isDirectory, hign, hlang]

theorem directories_cons_file (content : Text.Bytes) :
    directories ps ⟨above, (name, .file content) :: es⟩ = directories ps ⟨above, es⟩ := by
  by_cases hign : Ignore.ignores ps (Path.joinParts (above ++ [name])) false = true
  · simp [directories, kept, isDirectory, hign]
  · simp [directories, kept, isDirectory, hign]

theorem sources_cons_directory (fs : List (Text × FileTree)) :
    sources ps ⟨above, (name, .directory fs) :: es⟩ = sources ps ⟨above, es⟩ := by
  by_cases hign : Ignore.ignores ps (Path.joinParts (above ++ [name])) true = true
  · simp [sources, kept, isDirectory, hign]
  · simp [sources, kept, isDirectory, hign]

theorem directories_cons_directory (fs : List (Text × FileTree)) :
    directories ps ⟨above, (name, .directory fs) :: es⟩ =
      (if Ignore.ignores ps (Path.joinParts (above ++ [name])) true then []
        else [⟨above ++ [name], fs⟩]) ++ directories ps ⟨above, es⟩ := by
  by_cases hign : Ignore.ignores ps (Path.joinParts (above ++ [name])) true = true
  · simp [directories, kept, isDirectory, hign]
  · simp [directories, kept, isDirectory, hign]

/-- All that a directory holds, at any depth. -/
def allSources (ps : List Ignore.Pattern) (d : Pending) : List (List Text) :=
  sourcesAmong ps d.above d.entries

/-- What a directory holds is what is in it and what its directories hold. -/
theorem allSources_perm (d : Pending) :
    d.sources ps ++ (d.directories ps).flatMap (allSources ps) ~ d.allSources ps := by
  obtain ⟨above, es⟩ := d
  induction es with
  | nil => exact .nil
  | cons e es ih =>
    obtain ⟨name, t⟩ := e
    cases t with
    | file content =>
      rw [sources_cons_file, directories_cons_file, List.append_assoc]
      exact ih.append_left _
    | directory fs =>
      rw [sources_cons_directory, directories_cons_directory, List.flatMap_append]
      refine (List.perm_append_comm_assoc _ _ _).trans ?_
      have hhere : (if Ignore.ignores ps (Path.joinParts (above ++ [name])) true = true then []
          else [(⟨above ++ [name], fs⟩ : Pending)]).flatMap (allSources ps) =
          sourcesAt ps (above ++ [name]) (.directory fs) := by
        rw [sourcesAt]
        split
        · rfl
        · simp [allSources]
      rw [hhere]
      exact ih.append_left _

end Pending

/-- The number of directories in a queue and below it. -/
def pendingCount : List Pending → Nat
  | [] => 0
  | d :: queue => 1 + directoryCountAll d.entries + pendingCount queue

theorem pendingCount_append (queue more : List Pending) :
    pendingCount (queue ++ more) = pendingCount queue + pendingCount more := by
  induction queue with
  | nil => simp [pendingCount]
  | cons d queue ih =>
    rw [List.cons_append, pendingCount, pendingCount, ih]
    omega

theorem pendingCount_directories_le (d : Pending) :
    pendingCount (d.directories ps) ≤ directoryCountAll d.entries := by
  obtain ⟨above, es⟩ := d
  induction es with
  | nil => exact le_rfl
  | cons e es ih =>
    obtain ⟨name, t⟩ := e
    cases t with
    | file content =>
      rw [Pending.directories_cons_file, directoryCountAll, directoryCount, Nat.zero_add]
      exact ih
    | directory fs =>
      rw [Pending.directories_cons_directory, pendingCount_append, directoryCountAll,
        directoryCount]
      refine Nat.add_le_add ?_ ih
      split
      · exact Nat.zero_le _
      · exact le_rfl

/-- Collecting from a queue gives what its directories hold, whatever the order of the queue. -/
theorem walk_perm (n : Nat) (queue : List Pending) (hn : pendingCount queue ≤ n) :
    walk ps n queue ~ queue.flatMap (Pending.allSources ps) := by
  induction n generalizing queue with
  | zero =>
    cases queue with
    | nil => exact .nil
    | cons d queue =>
      rw [pendingCount] at hn
      omega
  | succ n ih =>
    cases queue with
    | nil => exact .nil
    | cons d queue =>
      have hle := pendingCount_directories_le ps d
      have hcount : pendingCount (queue ++ d.directories ps) ≤ n := by
        rw [pendingCount_append]
        rw [pendingCount] at hn
        omega
      rw [walk, List.flatMap_cons]
      calc d.sources ps ++ walk ps n (queue ++ d.directories ps)
        _ ~ d.sources ps ++ (queue ++ d.directories ps).flatMap (Pending.allSources ps) :=
            (ih _ hcount).append_left _
        _ ~ d.sources ps ++ ((d.directories ps).flatMap (Pending.allSources ps) ++
              queue.flatMap (Pending.allSources ps)) := by
            rw [List.flatMap_append]
            exact List.perm_append_comm.append_left _
        _ ~ d.allSources ps ++ queue.flatMap (Pending.allSources ps) := by
            rw [← List.append_assoc]
            exact (d.allSources_perm ps).append_right _

theorem ignores_nil (isDirectory : Bool) :
    Ignore.ignores ps (Path.joinParts []) isDirectory = false := by
  simp [Ignore.ignores, Ignore.stripSlashes, Path.joinParts]

/-- The root itself is never ruled out. -/
theorem sourcesIn_perm (es : List (Text × FileTree)) :
    sourcesIn ps (.directory es) ~ sourcesAt ps [] (.directory es) := by
  have hwalk := walk_perm ps (directoryCount (.directory es)) [⟨[], es⟩]
    (by simp [pendingCount, directoryCount])
  simpa [sourcesIn, entries, Pending.allSources, sourcesAt, ignores_nil] using hwalk

/-! ## What the sources are -/

theorem ofFileName?_isSome_iff {name : Text} :
    (Language.ofFileName? name).isSome = true ↔
      (suffixOf name).lower ∈ languageSuffixes.map Prod.fst := by
  rw [Language.ofFileName?, Option.isSome_map, List.find?_isSome, List.mem_map]
  simp only [beq_iff_eq]

/-- Below `parts`, `rel` leads to a file with a known suffix, and no rule rules out that file or a
directory on the way, the one at `parts` included. -/
structure Visible (ps : List Ignore.Pattern) (parts : List Text) (t : FileTree)
    (rel : List Text) : Prop where
  isFile : ∃ content, Leads t rel (.file content)
  known : (Language.ofFileName? ((parts ++ rel).getLastD [])).isSome = true
  kept : Ignore.ignores ps (Path.joinParts (parts ++ rel)) false = false
  enclosed : ∀ q, q <+: rel → q ≠ rel →
    Ignore.ignores ps (Path.joinParts (parts ++ q)) true = false

theorem visible_file_iff {parts rel : List Text} {content : Text.Bytes} :
    Visible ps parts (.file content) rel ↔
      rel = [] ∧ Ignore.ignores ps (Path.joinParts parts) false = false ∧
        (Language.ofFileName? (parts.getLastD [])).isSome = true := by
  constructor
  · rintro ⟨⟨_, hleads⟩, hknown, hkept, -⟩
    obtain ⟨rfl, -⟩ := leads_file_iff.mp hleads
    rw [List.append_nil] at hknown hkept
    exact ⟨rfl, hkept, hknown⟩
  · rintro ⟨rfl, hkept, hknown⟩
    refine ⟨⟨content, .here _⟩, by rwa [List.append_nil], by rwa [List.append_nil], ?_⟩
    intro q hq hne
    exact absurd (List.prefix_nil.mp hq) hne

theorem visible_directory_iff {parts rel : List Text} {es : List (Text × FileTree)} :
    Visible ps parts (.directory es) rel ↔
      Ignore.ignores ps (Path.joinParts parts) true = false ∧
        ∃ e ∈ es, ∃ more, rel = e.1 :: more ∧ Visible ps (parts ++ [e.1]) e.2 more := by
  constructor
  · rintro ⟨⟨content, hleads⟩, hknown, hkept, henc⟩
    cases hleads with
    | @enter _ name t _ more he hleads =>
      have hopen := henc [] (List.nil_prefix) (by simp)
      rw [List.append_nil] at hopen
      refine ⟨hopen, (name, t), he, more, rfl, ⟨content, hleads⟩, ?_, ?_, fun q hq hne ↦ ?_⟩
      · simpa using hknown
      · simpa using hkept
      · have hcons := henc (name :: q) (List.cons_prefix_cons.mpr ⟨rfl, hq⟩) (by simpa using hne)
        simpa using hcons
  · rintro ⟨hopen, ⟨name, t⟩, he, more, rfl, ⟨content, hleads⟩, hknown, hkept, henc⟩
    refine ⟨⟨content, .enter he hleads⟩, by simpa using hknown, by simpa using hkept, ?_⟩
    intro q hq hne
    cases q with
    | nil => simpa using hopen
    | cons head q =>
      obtain ⟨rfl, hq'⟩ := List.cons_prefix_cons.mp hq
      simpa using henc q hq' (by simpa using hne)

theorem mem_sourcesAt {parts f : List Text} {t : FileTree} :
    f ∈ sourcesAt ps parts t ↔ ∃ rel, f = parts ++ rel ∧ Visible ps parts t rel := by
  induction t generalizing parts f with
  | file content =>
    simp only [sourcesAt, visible_file_iff]
    constructor
    · intro hf
      split at hf
      · next h =>
        obtain ⟨hkept, hknown⟩ := Bool.and_eq_true_iff.mp h
        rw [List.mem_singleton] at hf
        exact ⟨[], by simpa using hf, rfl, by simpa using hkept, hknown⟩
      · exact absurd hf List.not_mem_nil
    · rintro ⟨rel, rfl, rfl, hkept, hknown⟩
      simp only [hkept, hknown, Bool.not_false, Bool.and_self, if_true, List.append_nil,
        List.mem_singleton]
  | directory es ih =>
    simp only [sourcesAt, visible_directory_iff, sourcesAmong_eq_flatMap]
    constructor
    · intro hf
      split at hf
      · exact absurd hf List.not_mem_nil
      · next hopen =>
        obtain ⟨e, he, hf⟩ := List.mem_flatMap.mp hf
        obtain ⟨rel, rfl, hrel⟩ := (ih e he).mp hf
        exact ⟨e.1 :: rel, by simp, by simpa using hopen, e, he, rel, rfl, hrel⟩
    · rintro ⟨_, rfl, hopen, e, he, rel, rfl, hrel⟩
      simp only [hopen, Bool.false_eq_true, if_false]
      exact List.mem_flatMap.mpr ⟨e, he, (ih e he).mpr ⟨rel, by simp, hrel⟩⟩

theorem nodup_sourcesAt {parts : List Text} {t : FileTree} (ht : WellFormed t) :
    (sourcesAt ps parts t).Nodup := by
  induction t generalizing parts with
  | file content =>
    rw [sourcesAt]
    split
    · exact List.nodup_singleton parts
    · exact List.nodup_nil
  | directory es ih =>
    cases ht with
    | directory hnames hback hes =>
      rw [sourcesAt, sourcesAmong_eq_flatMap]
      split
      · exact List.nodup_nil
      · refine List.nodup_flatMap.mpr ⟨fun e he ↦ ih e he (hes e he), ?_⟩
        refine (List.pairwise_map.mp hnames).imp fun {d e} hne f hd he ↦ hne ?_
        -- A source below two entries would have either name at the same place.
        obtain ⟨rel, rfl, -⟩ := (mem_sourcesAt ps).mp hd
        obtain ⟨rel', heq, -⟩ := (mem_sourcesAt ps).mp he
        simpa using (List.append_inj heq (by simp)).1

theorem mem_sourcesIn {es : List (Text × FileTree)} {parts : List Text} :
    parts ∈ sourcesIn ps (.directory es) ↔ Visible ps [] (.directory es) parts := by
  rw [(sourcesIn_perm ps es).mem_iff, mem_sourcesAt]
  simp

/-! ## Paths -/

/-- The path of the components `parts` below `p` is a source under the patterns `ps`. -/
structure IsSource (fs : FileSystem) (p : Path) (ps : List Ignore.Pattern)
    (parts : List Text) : Prop where
  /-- It does not go back, so it stays below `p`. -/
  straight : ['.', '.'] ∉ parts
  isFile : ∃ content, fs.find? (p.append parts) = some (.file content)
  known : (suffixOf (p.append parts).name).lower ∈ languageSuffixes.map Prod.fst
  kept : Ignore.ignores ps (Path.joinParts parts) false = false
  /-- No directory strictly between is ignored. -/
  enclosed : ∀ q, q ≠ [] → q <+: parts → q ≠ parts →
    Ignore.ignores ps (Path.joinParts q) true = false

variable {ps} {fs : FileSystem} {p : Path} {es : List (Text × FileTree)}

theorem sources_of_directory (hp : fs.find? p = some (.directory es)) :
    sources fs p = (ignorePatterns p (.directory es)).map fun ps ↦
      (sourcesIn ps (.directory es)).mergeSort partsLe := by
  rw [sources, hp]
  rfl

theorem isSource_iff (hfs : WellFormed fs.root) (hp : fs.find? p = some (.directory es))
    {parts : List Text} : IsSource fs p ps parts ↔ Visible ps [] (.directory es) parts := by
  constructor
  · rintro ⟨hstraight, ⟨content, hfile⟩, hknown, hkept, henc⟩
    have hleads := (FileSystem.find?_append_eq_some_iff hfs hp hstraight).mp hfile
    rw [p.name_append hleads.ne_nil] at hknown
    refine ⟨⟨content, hleads⟩, ofFileName?_isSome_iff.mpr hknown, hkept, fun q hq hqne ↦ ?_⟩
    by_cases hnil : q = []
    · subst hnil
      exact ignores_nil ps true
    · exact henc q hnil hq hqne
  · rintro ⟨⟨content, hleads⟩, hknown, hkept, henc⟩
    refine ⟨(FileSystem.wellFormed_find? hfs hp).notMem_of_leads hleads, ⟨content, FileSystem.find?_append_of_leads hfs hp hleads⟩, ?_,
      hkept, fun q _ hq hqne ↦ henc q hq hqne⟩
    rw [p.name_append hleads.ne_nil]
    exact ofFileName?_isSome_iff.mp hknown

/-- Below a directory whose ignore files can be read, the paths found are the sources and nothing
else, each once and in strictly increasing order. -/
theorem sourcePaths_exact (hfs : WellFormed fs.root) (hp : fs.find? p = some (.directory es))
    (hps : ignorePatterns p (.directory es) = .ok ps) :
    ∃ found, sourcePaths fs p = .ok found ∧
      found.Pairwise (fun f f' ↦ f.parts < f'.parts) ∧
      ∀ f, f ∈ found ↔ ∃ parts, f = p.append parts ∧ IsSource fs p ps parts := by
  have hnodup : (sourcesIn ps (.directory es)).Nodup :=
    (sourcesIn_perm ps es).nodup_iff.mpr (nodup_sourcesAt ps (FileSystem.wellFormed_find? hfs hp))
  refine ⟨((sourcesIn ps (.directory es)).mergeSort partsLe).map p.append, ?_, ?_, fun f ↦ ?_⟩
  · simp [sourcePaths, sources, hp, hps]
    rfl
  · refine List.pairwise_map.mpr ((pairwise_lt_mergeSort_partsLe hnodup).imp fun hlt ↦ ?_)
    exact List.append_left_lt hlt
  · simp only [List.mem_map, List.mem_mergeSort, mem_sourcesIn, isSource_iff hfs hp]
    constructor
    · rintro ⟨parts, hparts, rfl⟩
      exact ⟨parts, rfl, hparts⟩
    · rintro ⟨parts, rfl, hparts⟩
      exact ⟨parts, hparts, rfl⟩

/-- Rules that ignore the directory `o` and include a file in it again. -/
def reincluding : FileTree :=
  .file [111, 47, 10, 33, 111, 47, 107, 46, 116, 115, 10]

def reincludingPatterns : List Ignore.Pattern :=
  [⟨true, .glob [.leading, .char 'o', .slash true]⟩,
   ⟨false, .glob [.char 'o', .slash false, .char 'k', .char '.', .char 't', .char 's', .finish]⟩]

def reincludingProject : List (Text × FileTree) :=
  [(ignoreFileName, reincluding),
   (['o'], .directory [(['k', '.', 't', 's'], .file [])]),
   (['s'], .directory [(['a', '.', 'T', 'S'], .file [])])]

theorem wellFormed_reincludingProject : WellFormed (.directory reincludingProject) := by
  refine .directory (by decide) (by decide) ?_
  simp only [reincludingProject, List.forall_mem_cons, List.not_mem_nil, false_imp_iff,
    implies_true, and_true]
  refine ⟨.file _, .directory (by decide) (by decide) ?_, .directory (by decide) (by decide) ?_⟩
  · simp [WellFormed.file]
  · simp [WellFormed.file]

theorem ignorePatterns_reincludingProject :
    ignorePatterns ⟨[], []⟩ (.directory reincludingProject) = .ok reincludingPatterns := by
  have hfiles : ignoreFiles (.directory reincludingProject) = [([ignoreFileName], reincluding)] :=
    List.mergeSort_singleton ([ignoreFileName], reincluding)
  rw [ignorePatterns, hfiles]
  rfl

/-- What lies in an ignored directory is no source, though a later rule includes it again. -/
theorem sourcePaths_exact_reincludingProject :
    WellFormed (.directory reincludingProject) ∧
    FileSystem.find? (.ofTree (.directory reincludingProject)) ⟨[], []⟩ =
      some (.directory reincludingProject) ∧
    ignorePatterns ⟨[], []⟩ (.directory reincludingProject) = .ok reincludingPatterns ∧
    ∃ found, sourcePaths (.ofTree (.directory reincludingProject)) ⟨[], []⟩ = .ok found ∧
      ⟨[], [['s'], ['a', '.', 'T', 'S']]⟩ ∈ found ∧
      ⟨[], [['o'], ['k', '.', 't', 's']]⟩ ∉ found := by
  have hroot : FileSystem.find? (.ofTree (.directory reincludingProject)) ⟨[], []⟩ =
      some (.directory reincludingProject) := rfl
  obtain ⟨found, hfound, -, hmem⟩ :=
    sourcePaths_exact wellFormed_reincludingProject hroot ignorePatterns_reincludingProject
  refine ⟨wellFormed_reincludingProject, hroot, ignorePatterns_reincludingProject, found, hfound,
    (hmem _).mpr ⟨[['s'], ['a', '.', 'T', 'S']], rfl, ?_⟩, ?_⟩
  · refine ⟨by decide, ⟨[], rfl⟩, by decide, by decide, ?_⟩
    intro q hnil hq hne
    obtain rfl : q = [['s']] := by
      rcases List.prefix_cons_iff.mp hq with rfl | ⟨r, rfl, hr⟩
      · exact absurd rfl hnil
      · rcases List.prefix_cons_iff.mp hr with rfl | ⟨r', rfl, hr'⟩
        · rfl
        · exact absurd (by rw [List.prefix_nil.mp hr']) hne
    decide
  · intro hin
    obtain ⟨parts, heq, hsource⟩ := (hmem _).mp hin
    obtain rfl : [['o'], ['k', '.', 't', 's']] = parts := congrArg Path.parts heq
    exact absurd (hsource.enclosed [['o']] (by decide) (by decide) (by decide)) (by decide)

end CodeHealth.Project
