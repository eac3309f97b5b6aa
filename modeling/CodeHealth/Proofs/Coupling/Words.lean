import CodeHealth.Coupling
import CodeHealth.Proofs.NormalForm.Canonical

/-!
# Words and signs of coupling

The words of a text are its longest runs of word characters.  The signs of coupling are told here by
splits of a text alone: a word, what stands next to it, and what does not.  An expression that is
looked for may match a part of a word only; but what must stand around the match makes it whole, so
the expressions find exactly these signs.
-/

namespace CodeHealth.Coupling

open NormalForm (IsRun IsMaximalRun isRun_takeWhile)

/-! ## Words -/

/-- The text has the word between `before` and `after`. -/
structure HasWord (t before word after : Text) : Prop
    extends IsMaximalRun Text.isWordChar before word after where
  eq_append : t = before ++ word ++ after

/-- The text has two words, one behind the other, with `gap` between them. -/
structure HasWords (t before word gap next after : Text) : Prop where
  first : HasWord t before word (gap ++ next ++ after)
  second : HasWord t (before ++ word ++ gap) next after

variable {t before word gap next after : Text}

/-- Behind a gap that does not end within a word, any run is the next word. -/
theorem hasWords_iff (hgap : ∃ c ∈ gap.getLast?, Text.isWordChar c = false) :
    HasWords t before word gap next after ↔
      HasWord t before word (gap ++ next ++ after) ∧ IsRun Text.isWordChar next after := by
  constructor
  · intro h
    exact ⟨h.first, h.second.toIsRun⟩
  · rintro ⟨h, hrun⟩
    refine ⟨h, ⟨hrun, fun c hc ↦ ?_⟩, ?_⟩
    · obtain ⟨d, hd, hword⟩ := hgap
      rcases Text.mem_getLast?_append_iff.mp hc with hc | ⟨rfl, -⟩
      · rwa [Option.mem_unique hc hd]
      · cases hd
    · rw [h.eq_append]
      simp only [List.append_assoc]

/-- A word that is looked for begins where no other goes on. -/
theorem isFoundIn_word_iff {w : String} {rs : List Regex} (hne : w.toList ≠ [])
    (hw : ∀ c ∈ w.toList, Text.isWordChar c = true) :
    (Regex.inOrder (.wordBoundary :: .text w :: rs)).isFoundIn t = true ↔
      ∃ before after, t = before ++ w.toList ++ after ∧
        (∀ c ∈ before.getLast?, Text.isWordChar c = false) ∧
        (Regex.inOrder rs).Starts w.toList.getLast? after := by
  obtain ⟨c, s, hs⟩ := List.exists_cons_of_ne_nil hne
  have hc : Text.isWordChar c = true := hw c (by rw [hs]; exact List.mem_cons_self)
  have hlast (b : Option Char) : w.toList.getLast?.or b = w.toList.getLast? := by
    rw [List.getLast?_eq_some_getLast hne, Option.some_or]
  simp only [Regex.isFoundIn_iff, Regex.starts_inOrder_cons, Regex.reads_wordBoundary,
    Regex.reads_text]
  constructor
  · rintro ⟨before, -, rfl, -, -, rfl, ⟨rfl, hboundary⟩, -, after, rfl, rfl, hrest⟩
    rw [List.getLast?_nil, Option.none_or, hlast] at hrest
    rw [Regex.atWordBoundary_of_head? (c := c) (by rw [hs]; rfl) hc] at hboundary
    exact ⟨before, after, by simp only [List.nil_append, List.append_assoc], hboundary, hrest⟩
  · rintro ⟨before, after, rfl, hbefore, hrest⟩
    refine ⟨before, _, List.append_assoc .., [], _, rfl, ⟨rfl, ?_⟩, w.toList, after, rfl, rfl, ?_⟩
    · exact (Regex.atWordBoundary_of_head? (c := c) (by rw [hs]; rfl) hc).mpr hbefore
    · rwa [List.getLast?_nil, Option.none_or, hlast]

/-- A word that is looked for before a dot. -/
theorem isFoundIn_dotted_iff {w : String} {rs : List Regex} (hne : w.toList ≠ [])
    (hw : ∀ c ∈ w.toList, Text.isWordChar c = true) :
    (Regex.inOrder (.wordBoundary :: .text w :: .text "." :: rs)).isFoundIn t = true ↔
      ∃ before after, HasWord t before w.toList (['.'] ++ after) ∧
        (Regex.inOrder rs).Starts (some '.') after := by
  rw [isFoundIn_word_iff hne hw]
  simp only [Regex.starts_inOrder_cons (l := rs), Regex.reads_text]
  constructor
  · rintro ⟨before, -, rfl, hbefore, -, after, rfl, rfl, hrest⟩
    refine ⟨before, after, ⟨⟨⟨hne, hw, ?_⟩, hbefore⟩, rfl⟩, hrest⟩
    rintro c ⟨⟩
    decide
  · rintro ⟨before, after, h, hrest⟩
    exact ⟨before, _, h.eq_append, h.begins, ['.'], after, rfl, rfl, hrest⟩

/-! ## White space -/

/-- What follows white space, if there is any. -/
def AfterBlanks (P : Text → Prop) (t : Text) : Prop :=
  ∃ blanks rest, t = blanks ++ rest ∧ (∀ c ∈ blanks, Text.isAsciiBlank c = true) ∧ P rest

theorem isWordChar_eq_false_of_isAsciiBlank {c : Char} (h : Text.isAsciiBlank c = true) :
    Text.isWordChar c = false :=
  Text.isWordChar_eq_false_of_isBlank (Text.isBlank_of_isAsciiBlank h)

/-- What follows white space does not carry on a word, unless it is a word itself. -/
theorem AfterBlanks.isWordChar_eq_false {P : Text → Prop}
    (hP : ∀ rest, P rest → ∀ c ∈ rest.head?, Text.isWordChar c = false) (h : AfterBlanks P t)
    {c : Char} (hc : c ∈ t.head?) : Text.isWordChar c = false := by
  obtain ⟨blanks, rest, rfl, hblanks, hrest⟩ := h
  rw [List.head?_append, Option.mem_def, Option.or_eq_some_iff] at hc
  rcases hc with hc | ⟨-, hc⟩
  · exact isWordChar_eq_false_of_isAsciiBlank (hblanks c (List.mem_of_mem_head? hc))
  · exact hP rest hrest c hc

theorem starts_manyBlanks_iff {r : Regex} {P : Text → Prop} (hr : ∀ b t, r.Starts b t ↔ P t)
    {b : Option Char} : (Regex.inOrder [.many Text.isAsciiBlank, r]).Starts b t ↔
      AfterBlanks P t := by
  simp only [Regex.starts_inOrder_cons (l := [r]), Regex.reads_many,
    Regex.starts_inOrder_singleton, hr]
  rfl

/-! ## Instantiation -/

/-- The word `new`, white space and a word. -/
def Instantiates (t : Text) : Prop :=
  ∃ before blanks made after, HasWords t before "new".toList blanks made after ∧ blanks ≠ [] ∧
    ∀ c ∈ blanks, Text.isAsciiBlank c = true

theorem exists_mem_getLast?_of_ne_nil {blanks : Text} (hne : blanks ≠ [])
    (hblanks : ∀ c ∈ blanks, Text.isAsciiBlank c = true) :
    ∃ c ∈ blanks.getLast?, Text.isWordChar c = false :=
  ⟨blanks.getLast hne, List.getLast?_eq_some_getLast hne,
    isWordChar_eq_false_of_isAsciiBlank (hblanks _ (List.getLast_mem hne))⟩

theorem isFoundIn_instantiation : instantiation.isFoundIn t = true ↔ Instantiates t := by
  rw [instantiation, isFoundIn_word_iff (by decide) (by decide)]
  simp only [Regex.starts_inOrder_cons, Regex.starts_inOrder_nil, Regex.reads_plus, and_true]
  constructor
  · rintro ⟨before, -, rfl, hbefore, blanks, -, rfl, ⟨hne, hblanks⟩, made, after, rfl, hmade, hword⟩
    -- the match may stop within the word that is made
    obtain ⟨c, made, rfl⟩ := List.exists_cons_of_ne_nil hmade
    have hrun := isRun_takeWhile (hword c List.mem_cons_self) (made ++ after)
    have hgap := exists_mem_getLast?_of_ne_nil hne hblanks
    refine ⟨before, blanks, _, _, (hasWords_iff hgap).mpr ⟨?_, hrun⟩, hne, hblanks⟩
    rw [List.append_assoc blanks, List.takeWhile_append_dropWhile]
    refine ⟨⟨⟨by decide, by decide, fun d hd ↦ ?_⟩, hbefore⟩, rfl⟩
    obtain ⟨b, blanks, rfl⟩ := List.exists_cons_of_ne_nil hne
    obtain rfl := Option.some.inj hd
    exact isWordChar_eq_false_of_isAsciiBlank (hblanks b List.mem_cons_self)
  · rintro ⟨before, blanks, made, after, h, hne, hblanks⟩
    refine ⟨before, _, h.first.eq_append, h.first.begins, blanks, made ++ after,
      List.append_assoc .., ⟨hne, hblanks⟩, made, after, rfl, ?_, ?_⟩
    · exact h.second.ne_nil
    · exact h.second.forall_mem

/-! ## Globals -/

/-- One of the words for what is there everywhere. -/
def NamesGlobal (t : Text) : Prop :=
  ∃ before word after, HasWord t before word after ∧
    word ∈ ["global", "window", "document"].map String.toList

theorem isFoundIn_word {w : String} (hne : w.toList ≠ [])
    (hw : ∀ c ∈ w.toList, Text.isWordChar c = true) :
    (Regex.word w).isFoundIn t = true ↔ ∃ before after, HasWord t before w.toList after := by
  have hlast := List.getLast?_eq_some_getLast hne
  have hstop (after : Text) := Regex.atWordBoundary_of_before (t := after)
    (hw _ (List.getLast_mem hne))
  rw [Regex.word, isFoundIn_word_iff hne hw]
  simp only [Regex.starts_inOrder_singleton, Regex.starts_wordBoundary, hlast, hstop]
  constructor
  · rintro ⟨before, after, rfl, hbefore, hafter⟩
    exact ⟨before, after, ⟨⟨hne, hw, hafter⟩, hbefore⟩, rfl⟩
  · rintro ⟨before, after, h⟩
    exact ⟨before, after, h.eq_append, h.begins, h.ends⟩

theorem isFoundIn_globalName : globalName.isFoundIn t = true ↔ NamesGlobal t := by
  simp only [globalName, Regex.isFoundIn_alt]
  rw [isFoundIn_word (by decide) (by decide), isFoundIn_word (by decide) (by decide),
    isFoundIn_word (by decide) (by decide)]
  simp only [NamesGlobal, List.map_cons, List.map_nil, List.mem_cons, List.not_mem_nil, or_false,
    and_or_left, exists_or, exists_and_right, exists_eq_right]

/-! ## The console -/

/-- The word `console` and, behind a dot, a word for what it writes. -/
def WritesConsole (t : Text) : Prop :=
  ∃ before called after, HasWords t before "console".toList ['.'] called after ∧
    called ∈ ["log", "error", "warn"].map String.toList

theorem isFoundIn_consoleCall : consoleCall.isFoundIn t = true ↔ WritesConsole t := by
  have hgap : ∃ c ∈ ['.'].getLast?, Text.isWordChar c = false := ⟨'.', rfl, by decide⟩
  -- behind the word that is called no word goes on
  have hcalled {called after : Text} (h : called ∈ ["log", "error", "warn"].map String.toList) :
      (⟨called.getLast?.or (some '.'), after⟩ : Regex.Cursor).atWordBoundary = true ↔
        IsRun Text.isWordChar called after := by
    have hw : called ≠ [] ∧ ∀ c ∈ called, Text.isWordChar c = true := by
      revert called
      decide
    rw [List.getLast?_eq_some_getLast hw.1, Option.some_or,
      Regex.atWordBoundary_of_before (hw.2 _ (List.getLast_mem hw.1))]
    exact ⟨fun hafter ↦ ⟨hw.1, hw.2, hafter⟩, fun hrun ↦ hrun.ends⟩
  have hreads {b : Option Char} {called after : Text} :
      (Regex.alt (.text "log") (.alt (.text "error") (.text "warn"))).Reads b called after ↔
        called ∈ ["log", "error", "warn"].map String.toList := by
    simp
  rw [consoleCall, isFoundIn_dotted_iff (by decide) (by decide)]
  simp only [Regex.starts_inOrder_cons (l := [.wordBoundary]), Regex.starts_inOrder_singleton,
    Regex.starts_wordBoundary, hreads, WritesConsole, hasWords_iff hgap]
  constructor
  · rintro ⟨before, -, h, called, after, rfl, hmem, hboundary⟩
    exact ⟨before, called, after, ⟨h, (hcalled hmem).mp hboundary⟩, hmem⟩
  · rintro ⟨before, called, after, ⟨h, hrun⟩, hmem⟩
    exact ⟨before, _, h, called, after, rfl, hmem, (hcalled hmem).mpr hrun⟩

/-! ## Assignment -/

/-- One of the operators, not carried on to a comparison or an arrow. -/
def IsOperation (ops : List String) (t : Text) : Prop :=
  ∃ op ∈ ops, ∃ tail, t = op.toList ++ tail ∧ ∀ c ∈ tail.head?, c ≠ '=' ∧ c ≠ '>'

/-- An operator that assigns. -/
def IsAssignment : Text → Prop :=
  IsOperation ["=", "+=", "-=", "*=", "/="]

/-- A word that begins like a name, is no member of anything, and is assigned to. -/
def AssignsName (t : Text) : Prop :=
  ∃ before word after, HasWord t before word after ∧
    (∃ c ∈ word.head?, Text.isWordStart c = true) ∧ before.getLast? ≠ some '.' ∧
    AfterBlanks IsAssignment after

theorem starts_assignment_iff {b : Option Char} : assignment.Starts b t ↔ IsAssignment t := by
  have hstop (tail : Text) : (¬ ∃ c ∈ tail.head?, "=>".toList.contains c = true) ↔
      ∀ c ∈ tail.head?, c ≠ '=' ∧ c ≠ '>' := by
    simp
  simp only [assignment, Regex.starts_inOrder_cons, Regex.starts_inOrder_nil, Regex.opt,
    Regex.reads_alt, Regex.reads_one, Regex.reads_text, Regex.reads_empty, Regex.reads_notAhead,
    Regex.starts_one, hstop, and_true]
  constructor
  · rintro ⟨op, -, rfl, hop, -, -, rfl, rfl, -, tail, rfl, rfl, htail⟩
    rcases hop with ⟨c, rfl, hc⟩ | rfl
    · refine ⟨String.ofList [c, '='], ?_, tail, by simp, htail⟩
      have hops : ∀ d ∈ "+-*/".toList, String.ofList [d, '='] ∈ ["=", "+=", "-=", "*=", "/="] := by
        decide
      exact hops c (List.contains_iff_mem.mp hc)
    · exact ⟨"=", List.mem_cons_self, tail, rfl, htail⟩
  · rintro ⟨op, hop, tail, rfl, htail⟩
    obtain ⟨op', hsplit, hop'⟩ : ∃ op', op.toList = op' ++ ['='] ∧
        ((∃ c, op' = [c] ∧ "+-*/".toList.contains c = true) ∨ op' = []) := by
      simp only [List.mem_cons, List.not_mem_nil, or_false] at hop
      rcases hop with rfl | rfl | rfl | rfl | rfl
      · exact ⟨[], rfl, .inr rfl⟩
      · exact ⟨_, rfl, .inl ⟨'+', rfl, by decide⟩⟩
      · exact ⟨_, rfl, .inl ⟨'-', rfl, by decide⟩⟩
      · exact ⟨_, rfl, .inl ⟨'*', rfl, by decide⟩⟩
      · exact ⟨_, rfl, .inl ⟨'/', rfl, by decide⟩⟩
    rw [hsplit, List.append_assoc]
    exact ⟨op', _, rfl, hop', ['='], tail, rfl, rfl, [], tail, rfl, rfl, htail⟩

theorem IsAssignment.isWordChar_eq_false {t : Text} (h : IsAssignment t) {c : Char}
    (hc : c ∈ t.head?) : Text.isWordChar c = false := by
  obtain ⟨op, hop, tail, rfl, -⟩ := h
  simp only [List.mem_cons, List.not_mem_nil, or_false] at hop
  rcases hop with rfl | rfl | rfl | rfl | rfl <;>
    exact Option.some.inj hc ▸ by decide

/-- What begins behind the start of a line, or behind anything but a dot. -/
theorem isFoundIn_notMember_iff {rs : List Regex} :
    (Regex.inOrder (.alt .lineStart (.one (· != '.')) :: rs)).isFoundIn t = true ↔
      ∃ before rest, t = before ++ rest ∧ before.getLast? ≠ some '.' ∧
        (Regex.inOrder rs).Starts before.getLast? rest := by
  simp only [Regex.isFoundIn_iff, Regex.starts_inOrder_cons, Regex.reads_alt, Regex.reads_lineStart,
    Regex.reads_one, bne_iff_ne]
  constructor
  · rintro ⟨before, -, rfl, -, rest, rfl, ⟨rfl, hline⟩ | ⟨c, rfl, hc⟩, hrest⟩
    · refine ⟨before, rest, rfl, fun hdot ↦ ?_, hrest⟩
      exact absurd (hline '.' hdot) (by decide)
    · refine ⟨before ++ [c], rest, (List.append_assoc ..).symm, by simpa using hc, ?_⟩
      rwa [List.getLast?_concat]
  · rintro ⟨before, rest, rfl, hdot, hrest⟩
    rcases List.eq_nil_or_concat' before with rfl | ⟨init, c, rfl⟩
    · exact ⟨[], rest, rfl, [], rest, rfl, .inl ⟨rfl, by simp⟩, hrest⟩
    · rw [List.getLast?_concat] at hdot hrest
      exact ⟨init, c :: rest, List.append_assoc .., [c], rest, rfl,
        .inr ⟨c, rfl, fun h ↦ hdot (by rw [h])⟩, hrest⟩

theorem isFoundIn_bareAssignment : bareAssignment.isFoundIn t = true ↔ AssignsName t := by
  have hafter {after : Text} (h : AfterBlanks IsAssignment after) :
      ∀ c ∈ after.head?, Text.isWordChar c = false :=
    fun c hc ↦ h.isWordChar_eq_false (fun _ h _ ↦ h.isWordChar_eq_false) hc
  rw [bareAssignment, isFoundIn_notMember_iff]
  simp only [Regex.starts_inOrder_cons (l := [_, _, _, _]), Regex.starts_inOrder_cons (l := [_, _, _]),
    Regex.starts_inOrder_cons (l := [_, _]), Regex.reads_wordBoundary, Regex.reads_one,
    Regex.reads_many, starts_manyBlanks_iff fun _ _ ↦ starts_assignment_iff]
  constructor
  · rintro ⟨before, -, rfl, hdot, -, -, rfl, ⟨rfl, hboundary⟩, -, -, rfl, ⟨c, rfl, hc⟩, more, after,
      rfl, hmore, hassign⟩
    have hword : Text.isWordChar c = true := Text.isWordChar_iff.mpr (.inl hc)
    have hbefore := (Regex.atWordBoundary_of_head? rfl hword).mp hboundary
    refine ⟨before, c :: more, after, ⟨⟨⟨List.cons_ne_nil _ _, ?_, hafter hassign⟩, hbefore⟩, ?_⟩,
      ⟨c, rfl, hc⟩, hdot, hassign⟩
    · exact List.forall_mem_cons.mpr ⟨hword, hmore⟩
    · simp only [List.nil_append, List.append_assoc, List.cons_append]
  · rintro ⟨before, word, after, h, ⟨c, hhead, hc⟩, hdot, hassign⟩
    obtain ⟨more, rfl⟩ := List.head?_eq_some_iff.mp hhead
    have hword : Text.isWordChar c = true := Text.isWordChar_iff.mpr (.inl hc)
    refine ⟨before, c :: (more ++ after), ?_, hdot, [], _, rfl, ⟨rfl, ?_⟩, [c], more ++ after, rfl,
      ⟨c, rfl, hc⟩, more, after, rfl, ?_, hassign⟩
    · rw [h.eq_append, List.append_assoc, List.cons_append]
    · exact (Regex.atWordBoundary_of_head? rfl hword).mpr h.begins
    · exact fun d hd ↦ h.forall_mem d (List.mem_cons_of_mem c hd)

/-! ## Units that can be tested -/

/-- A unit cannot be tested by itself exactly if its text makes something, names a global, writes to
the console or assigns to a name. -/
theorem isTestable_eq_false_iff (t : Text) :
    isTestable t = false ↔ Instantiates t ∨ NamesGlobal t ∨ WritesConsole t ∨ AssignsName t := by
  rw [← isFoundIn_instantiation, ← isFoundIn_globalName, ← isFoundIn_consoleCall,
    ← isFoundIn_bareAssignment, isTestable]
  cases instantiation.isFoundIn t <;> cases globalName.isFoundIn t <;>
    simp [-Bool.not_or]

end CodeHealth.Coupling
