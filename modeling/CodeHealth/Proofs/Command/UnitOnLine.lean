import CodeHealth.Command.Run
import CodeHealth.Proofs.Source.Units
import CodeHealth.Proofs.Text.Lines
import CodeHealth.Report.Terminal
import Mathlib.Data.List.Chain

/-!
# The unit on a line

A line is looked up by the offset at which its content starts, and a unit by an offset in its range,
both ends of which count.  So a unit that ends where the content starts would be taken for the one
that starts there.  But what stands before the content is white space or a line feed, and if no unit
that touches the next one ends with such a character, the unit found is the one that holds the
content.
-/

namespace CodeHealth

namespace Text

/-- Line `n` is not blank, and `i` is the offset of its first character that is not white space. -/
def ContentStarts (t : Text) (n : Int) (i : Nat) : Prop :=
  ∃ before blanks c content after, IsLine t n before (blanks ++ c :: content) after ∧
    (∀ b ∈ blanks, isBlank b = true) ∧ isBlank c = false ∧ i = (before ++ blanks).length

variable {t : Text} {n : Int} {i : Nat}

theorem ContentStarts.lineOffset_eq (h : t.ContentStarts n i) : t.lineOffset n = .ok i := by
  obtain ⟨before, blanks, c, content, after, hline, hblanks, hsolid, rfl⟩ := h
  rw [hline.lineOffset_eq, List.takeWhile_append_of_pos hblanks,
    List.takeWhile_cons_of_neg (ne_true_of_eq_false hsolid), List.append_nil, List.length_append]

/-- Before the content of a line stands its white space or the line feed of the line above. -/
theorem ContentStarts.isBlank_of_mem_getLast? {c : Char} (h : t.ContentStarts n i)
    (hc : c ∈ (t.take i).getLast?) : isBlank c = true := by
  obtain ⟨before, blanks, d, content, after, hline, hblanks, -, rfl⟩ := h
  rw [hline.eq_append, ← List.append_assoc, List.append_assoc, List.take_left,
    mem_getLast?_append_iff] at hc
  rcases hc with hc | ⟨-, hc⟩
  · exact hblanks c (List.mem_of_mem_getLast? hc)
  · rw [hline.starts c hc]
    rfl

theorem getLast?_slice {a b : Nat} (hlt : a < b) (hle : b ≤ t.length) :
    (t.slice a b).getLast? = (t.take b).getLast? := by
  rw [slice_natCast, ← List.drop_take, List.getLast?_drop, List.length_take,
    if_neg (by omega)]

end Text

/-! ## Units in a row -/

/-- The units lie in the text one behind the other, none of them empty; and one that touches the
next does not end with white space. -/
structure CodeUnit.InRow (t : Text) (units : List CodeUnit) : Prop where
  within : ∀ u ∈ units, 0 ≤ u.start ∧ u.start < u.stop ∧ u.stop ≤ t.length
  ordered : units.Pairwise fun u v ↦ u.stop ≤ v.start
  touching : units.IsChain fun u v ↦ u.stop = v.start →
    ∀ c ∈ (t.slice u.start u.stop).getLast?, Text.isBlank c = false

namespace CodeUnit

variable {t : Text} {n : Int} {i : Nat} {units before after : List CodeUnit} {u v : CodeUnit}

/-- A unit ends before the content of a line if the next one starts no later than that content. -/
theorem stop_lt_of_touching (hi : t.ContentStarts n i) (hpos : 0 ≤ v.start)
    (hne : v.start < v.stop) (hlen : v.stop ≤ t.length) (hvu : v.stop ≤ u.start)
    (hsolid : v.stop = u.start → ∀ c ∈ (t.slice v.start v.stop).getLast?, Text.isBlank c = false)
    (hu : u.start ≤ i) : v.stop < i := by
  refine Int.lt_iff_le_and_ne.mpr ⟨Int.le_trans hvu hu, fun hstop ↦ ?_⟩
  obtain ⟨a, ha⟩ := Int.eq_ofNat_of_zero_le hpos
  have hai : a < i := by omega
  have hit : i ≤ t.length := by omega
  have hlast : (t.slice v.start v.stop).getLast? = (t.take i).getLast? := by
    rw [hstop, ha]
    exact Text.getLast?_slice hai hit
  have hnil : t.take i ≠ [] := List.ne_nil_of_length_pos (by rw [List.length_take]; omega)
  have hmem := Option.mem_def.mpr (List.getLast?_eq_some_getLast hnil)
  -- The last character of the unit is the one before the content.
  have hblank := hi.isBlank_of_mem_getLast? hmem
  rw [hsolid (by omega) _ (hlast ▸ hmem)] at hblank
  cases hblank

theorem InRow.stop_lt_of_mem_before (h : InRow t (before ++ u :: after)) (hi : t.ContentStarts n i)
    (hu : u.start ≤ i) : ∀ v ∈ before, v.stop < i := by
  rcases List.eq_nil_or_concat' before with rfl | ⟨init, v, rfl⟩
  · exact fun _ hmem ↦ absurd hmem List.not_mem_nil
  · obtain ⟨hwithin, hordered, htouching⟩ := h
    rw [List.append_assoc, List.singleton_append] at hwithin hordered htouching
    obtain ⟨hpos, hne, hlen⟩ := hwithin v (by simp)
    obtain ⟨-, hordered, hinit⟩ := List.pairwise_append.mp hordered
    -- The last unit before `u` ends behind the others.
    have hv : v.stop < i := by
      refine stop_lt_of_touching hi hpos hne hlen ?_ ?_ hu
      · exact List.rel_of_pairwise_cons hordered List.mem_cons_self
      · exact (List.isChain_append_cons_cons.mp htouching).2.1
    intro w hw
    rcases List.mem_append.mp hw with hw | hw
    · have hle := hinit w hw v List.mem_cons_self
      omega
    · rwa [List.mem_singleton.mp hw]

theorem InRow.at?_eq_some (h : InRow t units) (hi : t.ContentStarts n i) (hmem : u ∈ units)
    (hstart : u.start ≤ i) (hstop : i < u.stop) : at? units i = some u := by
  obtain ⟨before, after, rfl⟩ := List.append_of_mem hmem
  refine List.find?_eq_some_iff_append.mpr ⟨?_, before, after, rfl, fun v hv ↦ ?_⟩
  · rw [decide_eq_true hstart, decide_eq_true (Int.le_of_lt hstop), Bool.and_self]
  · have hlt := h.stop_lt_of_mem_before hi hstart v hv
    rw [decide_eq_false (Int.not_le.mpr hlt), Bool.and_false, Bool.not_false]

-- A unit that ends with the line feed is found on the line of the next one.
example : at? [⟨none, 0, 2, ['a', '\n'], .function 0⟩, ⟨none, 2, 3, ['b'], .function 0⟩] 2 =
    some ⟨none, 0, 2, ['a', '\n'], .function 0⟩ := by
  decide

end CodeUnit

namespace Command

/-! ## The command -/

variable {files : FileSystem} {a : UnitArguments} {l : Language} {t : Text} {i : Nat}

/-- The arguments name a source in this language with this text, and their end line, if any, is a
line of it that does not come before the line asked for. -/
structure NamesSource (files : FileSystem) (a : UnitArguments) (l : Language) (t : Text) : Prop where
  file : ∃ bs, files.find? (Path.ofText a.path) = some (.file bs) ∧ Text.ofFile bs = .ok t
  language : Language.ofFileName? (Path.ofText a.path).name = some l
  endLine : ∀ m ∈ a.endLine, a.line ≤ m ∧ t.HasLine m

theorem NamesSource.findPlace_eq (h : NamesSource files a l t) (hi : t.lineOffset a.line = .ok i) :
    ∃ stop, findPlace files a = .ok ⟨t, l, i, stop⟩ := by
  obtain ⟨⟨bs, hfile, htext⟩, hlanguage, hendLine⟩ := h
  have htextOf (label : Text) : (FileTree.file bs).textOf label = .ok t := by
    rw [FileTree.textOf, htext]
  cases hend : a.endLine with
  | none =>
    refine ⟨none, ?_⟩
    simp only [findPlace, hfile, hlanguage, htextOf, hi, hend, bind, Except.bind, pure, Except.pure,
      Except.mapError]
  | some m =>
    obtain ⟨hle, hm⟩ := hendLine m hend
    obtain ⟨before, line, below, hline⟩ := Text.exists_isLine hm
    refine ⟨some (before.length + line.length), ?_⟩
    simp only [findPlace, hfile, hlanguage, htextOf, hi, hend, if_neg (Int.not_lt.mpr hle),
      hline.lineEndOffset_eq, bind, Except.bind, pure, Except.pure, Except.mapError]

theorem reviewPlace_eq {r : Reviewer Float} {p : Place} {units : List CodeUnit} {u : CodeUnit}
    (hread : ∀ file, r.read p.text (some p.language.name.toList) file = ⟨units, []⟩)
    (hu : CodeUnit.at? units p.offset = some u) (label : Text) :
    reviewPlace r label p = (r.reviewUnit u, []) := by
  rw [reviewPlace]
  split
  · rw [Reviewer.reviewAt, hread, hu]
  · rw [Reviewer.reviewRange, hread, hu]
    rfl

/-- If the content of a line starts in a unit, the command shows the findings about this unit and
nothing else. -/
theorem unit_reviews_owner {t : Text} {units : List CodeUnit} (h : CodeUnit.InRow t units) {n : Int}
    {i : Nat} (hi : t.ContentStarts n i) {u : CodeUnit} (hmem : u ∈ units) (hstart : u.start ≤ i)
    (hstop : i < u.stop) :
    t.lineOffset n = .ok i ∧ CodeUnit.at? units i = some u ∧
    ∀ (console : Report.Console) (r : Reviewer Float) (files : FileSystem) (a : UnitArguments)
      (l : Language), a.line = n → NamesSource files a l t →
      (∀ file, r.read t (some l.name.toList) file = ⟨units, []⟩) →
      unit console r files a = display console files a.format 0
        ((r.reviewUnit u).map (Finding.locate (Path.ofText a.path).toText t)) [] := by
  have hoffset := hi.lineOffset_eq
  have hunit := h.at?_eq_some hi hmem hstart hstop
  refine ⟨hoffset, hunit, ?_⟩
  rintro console r files a l rfl hnames hread
  obtain ⟨stop, hplace⟩ := hnames.findPlace_eq hoffset
  simp only [unit, hplace, reviewPlace_eq (p := ⟨t, l, i, stop⟩) hread hunit]

/-- Two functions that touch each other, and an indented one on the next line. -/
def rowSource : Text :=
  "function A()\x7b\x7dfunction B()\x7b\x7d\n  function C()\x7b\x7d".toList

def rowUnits : List CodeUnit :=
  [⟨some ['A'], 0, 14, "function A()\x7b\x7d".toList, .function 0⟩,
   ⟨some ['B'], 14, 28, "function B()\x7b\x7d".toList, .function 0⟩,
   ⟨some ['C'], 31, 45, "function C()\x7b\x7d".toList, .function 0⟩]

def rowFiles : FileSystem :=
  .ofTree (.directory [("a.ts".toList, .file (Text.encode rowSource))])

/-- Asks for the second line and nothing behind it. -/
def rowArguments : UnitArguments :=
  ⟨"a.ts".toList, 2, some 2, .json, ⟨"warning".toList, .standard⟩⟩

def rowReviewer : Reviewer Float where
  thresholds := .standard
  severity := .warning
  taxonomy := .standard

theorem readDocument_rowSource (file : Text) :
    readDocument rowSource (some Language.typescript.name.toList) file = ⟨rowUnits, []⟩ := by
  have hunits : Source.units Language.typescript.dialect rowSource = rowUnits := by decide +kernel
  rw [readDocument_name, hunits]

theorem inRow_rowUnits : CodeUnit.InRow rowSource rowUnits where
  within := by decide
  ordered := by decide
  touching := by
    refine .cons_cons (fun _ c hc ↦ ?_) (.cons_cons (fun h ↦ absurd h (by decide)) (.singleton _))
    obtain rfl : '\x7d' = c := Option.some.inj hc
    decide

theorem isLine_rowSource :
    rowSource.IsLine 2 (rowSource.take 29) ([' ', ' '] ++ 'f' :: rowSource.drop 32) [] where
  eq_append := rfl
  notMem := by decide
  starts c hc := (Option.some.inj hc).symm
  stops := nofun
  number := rfl

theorem unit_reviews_owner_rowSource :
    CodeUnit.InRow rowSource rowUnits ∧ rowSource.ContentStarts 2 31 ∧
    ∃ u ∈ rowUnits, u.name = some ['C'] ∧ CodeUnit.at? rowUnits 31 = some u ∧
      unit Report.terminal rowReviewer rowFiles rowArguments = .ok ⟨0, Report.json
        ((rowReviewer.reviewUnit u).map (Finding.locate "a.ts".toList rowSource)) [] ++ ['\n'], [],
        rowFiles⟩ := by
  have hcontent : rowSource.ContentStarts 2 31 :=
    ⟨_, [' ', ' '], 'f', _, [], isLine_rowSource, List.all_eq_true.mp rfl, rfl, rfl⟩
  have hnames : NamesSource rowFiles rowArguments .typescript rowSource :=
    ⟨⟨Text.encode rowSource, rfl, by decide +kernel⟩, by decide +kernel,
      by decide +kernel⟩
  obtain ⟨-, hunit, hcommand⟩ := unit_reviews_owner inRow_rowUnits hcontent
    (List.mem_of_getElem? (i := 2) rfl) (by decide) (by decide)
  exact ⟨inRow_rowUnits, hcontent, _, List.mem_of_getElem? (i := 2) rfl, rfl, hunit,
    hcommand Report.terminal rowReviewer rowFiles rowArguments .typescript rfl hnames
      readDocument_rowSource⟩

end Command

end CodeHealth
