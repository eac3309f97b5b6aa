import CodeHealth.Project.FileSystem
import CodeHealth.Proofs.Assoc
import CodeHealth.Proofs.Project.Path

/-!
# Places in a file tree

`Leads` says where components lead in a tree, entry by entry.  In a well-formed tree, where the
entries of a directory have different names and none is called `..`, following a path that does not
go back is the same.
-/

namespace CodeHealth

namespace FileTree

/-- To prove something of all trees, prove it of a directory if it holds of its entries. -/
@[elab_as_elim, induction_eliminator]
theorem induction {motive : FileTree → Prop} (file : ∀ content, motive (.file content))
    (directory : ∀ es : List (Text × FileTree), (∀ e ∈ es, motive e.2) → motive (.directory es))
    (t : FileTree) : motive t := by
  refine @FileTree.rec motive (fun es ↦ ∀ e ∈ es, motive e.2) (fun e ↦ motive e.2) file directory
    ?_ ?_ (fun _ _ ht ↦ ht) t
  · exact fun e he ↦ absurd he List.not_mem_nil
  · exact fun e es he hes ↦ List.forall_mem_cons.mpr ⟨he, hes⟩

/-- The components lead from the first tree to the second. -/
inductive Leads : FileTree → List Text → FileTree → Prop
  | here (t : FileTree) : Leads t [] t
  | enter {es : List (Text × FileTree)} {name : Text} {t u : FileTree} {parts : List Text}
      (he : (name, t) ∈ es) (h : Leads t parts u) : Leads (.directory es) (name :: parts) u

theorem leads_nil_iff {t u : FileTree} : Leads t [] u ↔ u = t := by
  constructor
  · rintro ⟨⟩
    rfl
  · rintro rfl
    exact .here u

theorem leads_file_iff {content : Text.Bytes} {parts : List Text} {u : FileTree} :
    Leads (.file content) parts u ↔ parts = [] ∧ u = .file content := by
  constructor
  · rintro ⟨⟩
    exact ⟨rfl, rfl⟩
  · rintro ⟨rfl, rfl⟩
    exact .here _

theorem leads_cons_iff {es : List (Text × FileTree)} {name : Text} {parts : List Text}
    {u : FileTree} :
    Leads (.directory es) (name :: parts) u ↔ ∃ t, (name, t) ∈ es ∧ Leads t parts u := by
  constructor
  · rintro (_ | ⟨he, h⟩)
    exact ⟨_, he, h⟩
  · rintro ⟨t, he, h⟩
    exact .enter he h

theorem Leads.ne_nil {es : List (Text × FileTree)} {parts : List Text} {content : Text.Bytes}
    (h : Leads (.directory es) parts (.file content)) : parts ≠ [] := by
  rintro rfl
  cases h

/-- The entries of every directory have different names, none of which leads back. -/
inductive WellFormed : FileTree → Prop
  | file (content : Text.Bytes) : WellFormed (.file content)
  | directory {es : List (Text × FileTree)} (hnames : (Assoc.keys es).Nodup)
      (hback : ['.', '.'] ∉ Assoc.keys es) (hes : ∀ e ∈ es, WellFormed e.2) :
      WellFormed (.directory es)

theorem childNamed?_eq_get? (name : Text) (es : List (Text × FileTree)) :
    childNamed? name es = Assoc.get? name es := by
  induction es with
  | nil => rfl
  | cons e es ih => simp only [childNamed?, Assoc.get?, ih]

theorem WellFormed.childNamed?_eq_some_iff {es : List (Text × FileTree)} {name : Text}
    {t : FileTree} (hes : WellFormed (.directory es)) :
    childNamed? name es = some t ↔ (name, t) ∈ es := by
  cases hes with
  | directory hnames _ _ => rw [childNamed?_eq_get?, Assoc.get?_eq_some_iff hnames]

theorem WellFormed.child {es : List (Text × FileTree)} {name : Text} {t : FileTree}
    (hes : WellFormed (.directory es)) (he : (name, t) ∈ es) : WellFormed t := by
  cases hes with
  | directory _ _ hes => exact hes (name, t) he

/-- No entry of a well-formed tree leads back. -/
theorem WellFormed.notMem_of_leads {t u : FileTree} {parts : List Text} (ht : WellFormed t)
    (h : Leads t parts u) : ['.', '.'] ∉ parts := by
  induction h with
  | here t => exact List.not_mem_nil
  | @enter es name t u parts he _ ih =>
    have hchild := ht.child he
    cases ht with
    | directory _ hback _ =>
      rintro (_ | ⟨_, hmem⟩)
      · exact hback (List.mem_map_of_mem he)
      · exact ih hchild hmem

/-! ## Following paths -/

theorem follow_cons_of_ne {above : List FileTree} {es : List (Text × FileTree)} {name : Text}
    {parts : List Text} (hname : name ≠ ['.', '.']) :
    follow above (.directory es) (name :: parts) =
      (childNamed? name es).bind fun t ↦ follow (.directory es :: above) t parts := by
  simp only [follow, beq_iff_eq, hname, if_false]
  cases childNamed? name es <;> rfl

/-- What follows components that have led somewhere is followed from there. -/
theorem exists_follow_append {above : List FileTree} {t u : FileTree} {parts : List Text}
    (h : follow above t parts = some u) :
    ∃ above', ∀ more, follow above t (parts ++ more) = follow above' u more := by
  induction parts generalizing above t with
  | nil =>
    obtain rfl : t = u := by simpa [follow] using h
    exact ⟨above, fun _ ↦ rfl⟩
  | cons name parts ih =>
    cases t with
    | file content => exact absurd h (by simp [follow])
    | directory es =>
      by_cases hname : name = ['.', '.']
      · cases above with
        | nil =>
          simp only [follow, hname, beq_self_eq_true, if_true] at h
          obtain ⟨above', hmore⟩ := ih h
          exact ⟨above', fun more ↦ by simp [follow, hname, hmore]⟩
        | cons parent above =>
          simp only [follow, hname, beq_self_eq_true, if_true] at h
          obtain ⟨above', hmore⟩ := ih h
          exact ⟨above', fun more ↦ by simp [follow, hname, hmore]⟩
      · rw [follow_cons_of_ne hname] at h
        obtain ⟨t, ht, h⟩ := Option.bind_eq_some_iff.mp h
        obtain ⟨above', hmore⟩ := ih h
        refine ⟨above', fun more ↦ ?_⟩
        rw [List.cons_append, follow_cons_of_ne hname, ht, Option.bind_some, hmore]

theorem WellFormed.follow {above : List FileTree} {t u : FileTree} {parts : List Text}
    (ht : WellFormed t) (habove : ∀ a ∈ above, WellFormed a)
    (h : t.follow above parts = some u) : WellFormed u := by
  induction parts generalizing above t with
  | nil =>
    obtain rfl : t = u := by simpa [FileTree.follow] using h
    exact ht
  | cons name parts ih =>
    cases t with
    | file content => exact absurd h (by simp [FileTree.follow])
    | directory es =>
      by_cases hname : name = ['.', '.']
      · cases above with
        | nil =>
          simp only [FileTree.follow, hname, beq_self_eq_true, if_true] at h
          exact ih ht habove h
        | cons parent above =>
          simp only [FileTree.follow, hname, beq_self_eq_true, if_true] at h
          obtain ⟨hparent, habove⟩ := List.forall_mem_cons.mp habove
          exact ih hparent habove h
      · rw [follow_cons_of_ne hname] at h
        obtain ⟨child, hchild, h⟩ := Option.bind_eq_some_iff.mp h
        have hwf : WellFormed child := ht.child (ht.childNamed?_eq_some_iff.mp hchild)
        exact ih hwf (List.forall_mem_cons.mpr ⟨ht, habove⟩) h

/-- Components that do not go back lead where they are followed. -/
theorem WellFormed.follow_eq_some_iff {above : List FileTree} {t u : FileTree} {parts : List Text}
    (ht : WellFormed t) (hparts : ['.', '.'] ∉ parts) :
    t.follow above parts = some u ↔ Leads t parts u := by
  induction parts generalizing above t with
  | nil =>
    constructor
    · intro h
      obtain rfl : t = u := by simpa [FileTree.follow] using h
      exact .here t
    · rintro ⟨⟩
      rfl
  | cons name parts ih =>
    obtain ⟨hname, hparts⟩ := not_or.mp (mt List.mem_cons.mpr hparts)
    cases t with
    | file content => simp [FileTree.follow, leads_file_iff]
    | directory es =>
      rw [follow_cons_of_ne (Ne.symm hname), Option.bind_eq_some_iff, leads_cons_iff]
      constructor
      · rintro ⟨child, hchild, h⟩
        have he := ht.childNamed?_eq_some_iff.mp hchild
        exact ⟨child, he, (ih (ht.child he) hparts).mp h⟩
      · rintro ⟨child, he, h⟩
        exact ⟨child, ht.childNamed?_eq_some_iff.mpr he, (ih (ht.child he) hparts).mpr h⟩

end FileTree

namespace FileSystem

open FileTree

variable {fs : FileSystem} {u v : FileTree} {p : Path} {parts : List Text}

theorem place_append (fs : FileSystem) (p : Path) (parts : List Text) :
    fs.place (p.append parts) = fs.place p ++ parts := by
  rw [place, place, Path.append_root, Path.append_parts]
  split
  · exact (List.append_assoc _ _ _).symm
  · rfl

theorem wellFormed_find? (hfs : WellFormed fs.root) (h : fs.find? p = some u) : WellFormed u :=
  hfs.follow (fun _ ha ↦ absurd ha List.not_mem_nil) h

/-- What lies below a place that a path leads to. -/
theorem find?_append_eq_some_iff (hfs : WellFormed fs.root) (h : fs.find? p = some u)
    (hparts : ['.', '.'] ∉ parts) : fs.find? (p.append parts) = some v ↔ Leads u parts v := by
  obtain ⟨above, hmore⟩ := exists_follow_append h
  rw [find?, place_append, hmore, (wellFormed_find? hfs h).follow_eq_some_iff hparts]

theorem find?_append_of_leads (hfs : WellFormed fs.root) (h : fs.find? p = some u)
    (hleads : Leads u parts v) : fs.find? (p.append parts) = some v :=
  (find?_append_eq_some_iff hfs h ((wellFormed_find? hfs h).notMem_of_leads hleads)).mpr hleads

end FileSystem

end CodeHealth
