import CodeHealth.Proofs.Coupling.Words

/-!
# Effects on members

A member of `this` counts as assigned to if an equals sign follows it.  So it also counts where it
is compared or stands before an arrow, and it does not count where an operator computes the new
value from the old one.  In all else, effects are found exactly where a text writes to the console or
assigns to a name or to a member.
-/

namespace CodeHealth.Coupling

open NormalForm (IsRun)

variable {P Q : Text → Prop} {t : Text}

/-! ## Members -/

/-- A member of `this` and, behind white space if there is any, what satisfies `P`. -/
def MemberBefore (P : Text → Prop) (t : Text) : Prop :=
  ∃ before field after, HasWords t before "this".toList ['.'] field after ∧ AfterBlanks P after

theorem afterBlanks_or :
    AfterBlanks (fun rest ↦ P rest ∨ Q rest) t ↔ AfterBlanks P t ∨ AfterBlanks Q t := by
  simp only [AfterBlanks, and_or_left, exists_or]

theorem memberBefore_or :
    MemberBefore (fun rest ↦ P rest ∨ Q rest) t ↔ MemberBefore P t ∨ MemberBefore Q t := by
  simp only [MemberBefore, afterBlanks_or, and_or_left, exists_or]

/-- The expression finds a whole member, since what follows it does not carry on a word. -/
theorem isFoundIn_memberBefore {next : Regex} (hnext : ∀ b t, next.Starts b t ↔ P t)
    (hP : ∀ rest, P rest → ∀ c ∈ rest.head?, Text.isWordChar c = false) :
    (memberBefore next).isFoundIn t = true ↔ MemberBefore P t := by
  have hgap : ∃ c ∈ ['.'].getLast?, Text.isWordChar c = false := ⟨'.', rfl, by decide⟩
  rw [memberBefore, isFoundIn_dotted_iff (by decide) (by decide)]
  simp only [Regex.starts_inOrder_cons (l := [_, _]), Regex.reads_plus,
    starts_manyBlanks_iff hnext, MemberBefore, hasWords_iff hgap]
  constructor
  · rintro ⟨before, -, h, field, after, rfl, ⟨hne, hfield⟩, hafter⟩
    have hrun : IsRun Text.isWordChar field after :=
      ⟨hne, hfield, fun c hc ↦ hafter.isWordChar_eq_false hP hc⟩
    exact ⟨before, field, after, ⟨h, hrun⟩, hafter⟩
  · rintro ⟨before, field, after, ⟨h, hrun⟩, hafter⟩
    exact ⟨before, _, h, field, after, rfl, ⟨hrun.ne_nil, hrun.forall_mem⟩, hafter⟩

/-! ## Effects -/

/-- A member is assigned to. -/
def AssignsField : Text → Prop :=
  MemberBefore IsAssignment

/-- The text writes to the console or assigns to a name or to a member. -/
def HasEffects (t : Text) : Prop :=
  WritesConsole t ∨ AssignsName t ∨ AssignsField t

/-- A member gets a value. -/
def SetsField : Text → Prop :=
  MemberBefore (IsOperation ["="])

/-- A member gets a value that is computed from the one it has. -/
def UpdatesField : Text → Prop :=
  MemberBefore (IsOperation ["+=", "-=", "*=", "/="])

/-- An equals sign that is carried on to a comparison or an arrow. -/
def IsComparison (t : Text) : Prop :=
  ∃ c rest, t = '=' :: c :: rest ∧ (c = '=' ∨ c = '>')

/-- A member is compared, or stands before an arrow. -/
def ComparesField : Text → Prop :=
  MemberBefore IsComparison

theorem isOperation_append {ops ops' : List String} :
    IsOperation (ops ++ ops') t ↔ IsOperation ops t ∨ IsOperation ops' t := by
  simp only [IsOperation, List.mem_append, or_and_right, exists_or]

theorem assignsField_iff : AssignsField t ↔ SetsField t ∨ UpdatesField t := by
  rw [SetsField, UpdatesField, ← memberBefore_or]
  simp only [← isOperation_append]
  rfl

theorem head?_eq_equals_iff : t.head? = some '=' ↔ IsOperation ["="] t ∨ IsComparison t := by
  constructor
  · intro hhead
    obtain ⟨rest, rfl⟩ := List.head?_eq_some_iff.mp hhead
    by_cases hrest : ∀ c ∈ rest.head?, c ≠ '=' ∧ c ≠ '>'
    · exact .inl ⟨"=", List.mem_singleton_self _, rest, rfl, hrest⟩
    · push Not at hrest
      obtain ⟨c, hc, hnot⟩ := hrest
      obtain ⟨rest, rfl⟩ := List.head?_eq_some_iff.mp hc
      exact .inr ⟨c, rest, rfl, Decidable.or_iff_not_imp_left.mpr hnot⟩
  · rintro (⟨op, hop, tail, rfl, -⟩ | ⟨c, rest, rfl, -⟩)
    · rw [List.mem_singleton.mp hop]
      rfl
    · rfl

theorem isFoundIn_fieldAssignment :
    fieldAssignment.isFoundIn t = true ↔ SetsField t ∨ ComparesField t := by
  have hequals (b : Option Char) (t : Text) :
      (Regex.text "=").Starts b t ↔ IsOperation ["="] t ∨ IsComparison t := by
    simp only [Regex.Starts, Regex.reads_text, ← head?_eq_equals_iff, List.head?_eq_some_iff]
    constructor
    · rintro ⟨-, rest, rfl, rfl⟩
      exact ⟨rest, rfl⟩
    · rintro ⟨rest, rfl⟩
      exact ⟨['='], rest, rfl, rfl⟩
  rw [fieldAssignment, isFoundIn_memberBefore hequals, memberBefore_or]
  · rfl
  · intro rest hrest c hc
    obtain rfl := Option.mem_unique hc (head?_eq_equals_iff.mpr hrest)
    decide

theorem hasSideEffects_eq_true_iff : hasSideEffects t = true ↔
    (WritesConsole t ∨ AssignsName t ∨ SetsField t) ∨ ComparesField t := by
  simp only [hasSideEffects, Bool.or_eq_true, isFoundIn_fieldAssignment, isFoundIn_consoleCall,
    isFoundIn_bareAssignment]
  constructor
  · rintro (((hsets | hcompares) | hconsole) | hname)
    · exact .inl (.inr (.inr hsets))
    · exact .inr hcompares
    · exact .inl (.inl hconsole)
    · exact .inl (.inr (.inl hname))
  · rintro ((hconsole | hname | hsets) | hcompares)
    · exact .inl (.inr hconsole)
    · exact .inr hname
    · exact .inl (.inl (.inl hsets))
    · exact .inl (.inl (.inr hcompares))

theorem hasEffects_iff : HasEffects t ↔
    (WritesConsole t ∨ AssignsName t ∨ SetsField t) ∨ UpdatesField t := by
  rw [HasEffects, assignsField_iff, or_assoc, or_assoc]

/-- Effects are found where a text writes to the console, assigns to a name, gives a member a value
or compares one.  So what is found is what there is, unless the text does none of the first three
and either compares a member or updates one, but not both. -/
theorem hasSideEffects_iff (t : Text) :
    (hasSideEffects t = true ↔
      WritesConsole t ∨ AssignsName t ∨ SetsField t ∨ ComparesField t) ∧
    ((hasSideEffects t = true ↔ HasEffects t) ↔
      (WritesConsole t ∨ AssignsName t ∨ SetsField t) ∨ (ComparesField t ↔ UpdatesField t)) := by
  constructor
  · rw [hasSideEffects_eq_true_iff, or_assoc, or_assoc]
  · rw [hasSideEffects_eq_true_iff, hasEffects_iff]
    by_cases hrest : WritesConsole t ∨ AssignsName t ∨ SetsField t
    · simp only [hrest, true_or]
    · simp only [hrest, false_or]

theorem isFoundIn_memberBefore_assignment :
    (memberBefore assignment).isFoundIn t = true ↔ AssignsField t :=
  isFoundIn_memberBefore (fun _ _ ↦ starts_assignment_iff) fun _ h _ ↦ h.isWordChar_eq_false

/-- A function that compares a member. -/
def comparingText : Text := "function Same(b) { return this.a === b; }".toList

/-- A function that updates a member. -/
def updatingText : Text := "function Add(b) { this.a += b; }".toList

/-- The comparison is found as an effect, and the update is not. -/
theorem hasSideEffects_ne_hasEffects :
    (hasSideEffects comparingText = true ∧ ¬ HasEffects comparingText) ∧
    hasSideEffects updatingText = false ∧ HasEffects updatingText := by
  simp only [HasEffects, ← isFoundIn_consoleCall, ← isFoundIn_bareAssignment,
    ← isFoundIn_memberBefore_assignment]
  decide +kernel

end CodeHealth.Coupling
