import CodeHealth.Proofs.Project.FileTree

/-!
# Writing into a file tree

What is at a place stays there and stays a file or a directory while directories are made and a
file is written.  So the path of a file that was written leads to it in the tree left, two dots
included, and where nothing was written the path leads to no file and all files are as before.
-/

namespace CodeHealth.FileTree

variable {t t' u c new : FileTree} {es : List (Text × FileTree)} {name : Text}
  {parts done q : List Text} {above : List FileTree}

/-! ## Places -/

/-- What stands at the end of components, none of which leads back. -/
def lookup? : List Text → FileTree → Option FileTree
  | [], t => some t
  | _ :: _, .file _ => none
  | name :: parts, .directory es => (childNamed? name es).bind (lookup? parts)

@[simp] theorem lookup?_nil (t : FileTree) : t.lookup? [] = some t := by
  rw [lookup?]

@[simp] theorem lookup?_cons_directory (name : Text) (parts : List Text)
    (es : List (Text × FileTree)) :
    (directory es).lookup? (name :: parts) = (childNamed? name es).bind (lookup? parts) := rfl

@[simp] theorem lookup?_cons_file (name : Text) (parts : List Text) (content : Text.Bytes) :
    (file content).lookup? (name :: parts) = none := rfl

theorem lookup?_append (t : FileTree) (p q : List Text) :
    t.lookup? (p ++ q) = (t.lookup? p).bind (lookup? q) := by
  induction p generalizing t with
  | nil => simp
  | cons name p ih =>
    cases t with
    | file content => rfl
    | directory es =>
      rw [List.cons_append, lookup?_cons_directory, lookup?_cons_directory, Option.bind_assoc]
      exact Option.bind_congr fun child _ ↦ ih child

/-- Whether a directory stands at the end of components, or a file. -/
def kind? (parts : List Text) (t : FileTree) : Option Bool :=
  (t.lookup? parts).map isDirectory

@[simp] theorem kind?_nil (t : FileTree) : t.kind? [] = some t.isDirectory := by
  rw [kind?, lookup?_nil, Option.map_some]

theorem kind?_cons_directory (name : Text) (parts : List Text) (es : List (Text × FileTree)) :
    (directory es).kind? (name :: parts) = (childNamed? name es).bind (kind? parts) := by
  rw [kind?, lookup?_cons_directory, Option.map_bind]
  rfl

theorem kind?_eq_true_iff :
    t.kind? parts = some true ↔ ∃ es, t.lookup? parts = some (.directory es) := by
  rw [kind?]
  rcases t.lookup? parts with _ | ⟨_ | _⟩ <;> simp [isDirectory]

theorem kind?_append_cons_eq_some {b : Bool} (h : t.kind? (parts ++ name :: q) = some b) :
    t.kind? parts = some true := by
  rw [kind?, lookup?_append] at h
  rw [kind?_eq_true_iff]
  rcases hc : t.lookup? parts with _ | ⟨_ | es⟩
  · simp [hc] at h
  · simp [hc] at h
  · exact ⟨es, rfl⟩

theorem kind?_dropLast (h : t.kind? parts = some true) : t.kind? parts.dropLast = some true := by
  rcases List.eq_nil_or_concat' parts with rfl | ⟨init, last, rfl⟩
  · exact h
  · rw [List.dropLast_concat]
    exact kind?_append_cons_eq_some h

/-- What stands in the first tree stands in the second, a file or a directory as before. -/
def Extends (t u : FileTree) : Prop :=
  ∀ parts b, t.kind? parts = some b → u.kind? parts = some b

theorem Extends.refl (t : FileTree) : Extends t t :=
  fun _ _ h ↦ h

theorem Extends.trans (h : Extends t t') (h' : Extends t' u) : Extends t u :=
  fun parts b hb ↦ h' parts b (h parts b hb)

/-! ## Putting a tree at a place -/

theorem setEntry_eq_put (name : Text) (t : FileTree) (es : List (Text × FileTree)) :
    setEntry name t es = Assoc.put name t es := by
  induction es with
  | nil => rfl
  | cons e es ih => simp only [setEntry, Assoc.put, ih]

@[simp] theorem childNamed?_setEntry_self (name : Text) (t : FileTree)
    (es : List (Text × FileTree)) : childNamed? name (setEntry name t es) = some t := by
  rw [childNamed?_eq_get?, setEntry_eq_put, Assoc.get?_put_self]

theorem childNamed?_setEntry_of_ne {other : Text} (hne : name ≠ other) (t : FileTree)
    (es : List (Text × FileTree)) :
    childNamed? other (setEntry name t es) = childNamed? other es := by
  rw [childNamed?_eq_get?, childNamed?_eq_get?, setEntry_eq_put, Assoc.get?_put_of_ne hne]

/-- What is taken to stand where nothing does. -/
def missing (new : FileTree) (rest : List Text) : FileTree :=
  if rest.isEmpty && !new.isDirectory then .file [] else empty

theorem put?_cons_directory (new : FileTree) (name : Text) (rest : List Text)
    (es : List (Text × FileTree)) :
    put? new (name :: rest) (.directory es) =
      (put? new rest ((childNamed? name es).getD (missing new rest))).map fun t ↦
        .directory (setEntry name t es) := rfl

theorem put?_cons_eq_some (h : put? new (name :: parts) t = some t') :
    ∃ es u, t = .directory es ∧ t' = .directory (setEntry name u es) ∧
      put? new parts ((childNamed? name es).getD (missing new parts)) = some u := by
  cases t with
  | file content => cases h
  | directory es =>
    rw [put?_cons_directory] at h
    obtain ⟨u, hu, rfl⟩ := Option.map_eq_some_iff.mp h
    exact ⟨es, u, rfl, rfl, hu⟩

/-- At the place itself, a directory stays and a file is exchanged. -/
theorem put?_nil_eq_some (h : put? new [] t = some t') :
    (new.isDirectory = true ∧ t.isDirectory = true ∧ t' = t) ∨
      (new.isDirectory = false ∧ t.isDirectory = false ∧ t' = new) := by
  cases t with
  | file content =>
    rw [put?] at h
    split at h
    · cases h
    · next hnew =>
      cases h
      exact .inr ⟨by simpa using hnew, rfl, rfl⟩
  | directory es =>
    rw [put?] at h
    split at h
    · next hnew =>
      cases h
      exact .inl ⟨hnew, rfl, rfl⟩
    · cases h

theorem extends_put? (h : put? new parts t = some t') : Extends t t' := by
  induction parts generalizing t t' with
  | nil =>
    rcases put?_nil_eq_some h with ⟨-, -, rfl⟩ | ⟨hnew, ht, rfl⟩
    · exact .refl t'
    · -- Nothing lies below a file.
      intro q b hq
      obtain ⟨content, rfl⟩ : ∃ content, t = .file content := by
        cases t with
        | file content => exact ⟨content, rfl⟩
        | directory es => cases ht
      cases q with
      | nil =>
        rw [kind?_nil, hnew]
        exact hq
      | cons name q => simp [kind?] at hq
  | cons name parts ih =>
    obtain ⟨es, u, rfl, rfl, hu⟩ := put?_cons_eq_some h
    intro q b hq
    cases q with
    | nil => exact hq
    | cons other q =>
      rw [kind?_cons_directory] at hq ⊢
      by_cases hname : name = other
      · subst hname
        obtain ⟨child, hchild, hq⟩ := Option.bind_eq_some_iff.mp hq
        rw [hchild, Option.getD_some] at hu
        rw [childNamed?_setEntry_self, Option.bind_some]
        exact ih hu q b hq
      · rwa [childNamed?_setEntry_of_ne hname]

/-- What is put at a place is found there, unless a directory was there already. -/
theorem exists_lookup?_put? (h : put? new parts t = some t') :
    ∃ old u, put? new [] old = some u ∧ t'.lookup? parts = some u := by
  induction parts generalizing t t' with
  | nil => exact ⟨t, t', h, lookup?_nil t'⟩
  | cons name parts ih =>
    obtain ⟨es, u, rfl, rfl, hu⟩ := put?_cons_eq_some h
    obtain ⟨old, v, hv, hlookup⟩ := ih hu
    exact ⟨old, v, hv, by rw [lookup?_cons_directory, childNamed?_setEntry_self]; exact hlookup⟩

theorem lookup?_put?_file {content : Text.Bytes} (h : put? (.file content) parts t = some t') :
    t'.lookup? parts = some (.file content) := by
  obtain ⟨old, u, hu, hlookup⟩ := exists_lookup?_put? h
  rcases put?_nil_eq_some hu with ⟨hnew, -⟩ | ⟨-, -, rfl⟩
  · cases hnew
  · exact hlookup

theorem kind?_put?_empty (h : put? empty parts t = some t') : t'.kind? parts = some true := by
  obtain ⟨old, u, hu, hlookup⟩ := exists_lookup?_put? h
  rcases put?_nil_eq_some hu with ⟨-, hdirectory, rfl⟩ | ⟨hnew, -⟩
  · rw [kind?, hlookup, Option.map_some, hdirectory]
  · cases hnew

/-- In a directory, only a file can stand in the way of a directory, and the other way round. -/
theorem kind?_of_put?_eq_none (hdone : t.kind? done = some true)
    (h : put? new (done ++ [name]) t = none) : t.kind? (done ++ [name]) = some !new.isDirectory := by
  induction done generalizing t with
  | nil =>
    cases t with
    | file content => cases hdone
    | directory es =>
      rw [List.nil_append, put?_cons_directory, Option.map_eq_none_iff] at h
      rw [List.nil_append, kind?_cons_directory]
      cases hchild : childNamed? name es with
      | none => cases new <;> simp [hchild, missing, put?, isDirectory, empty] at h
      | some child =>
        rw [hchild, Option.getD_some] at h
        cases child <;> cases new <;> simp [put?, isDirectory] at h ⊢
  | cons part done ih =>
    cases t with
    | file content => cases hdone
    | directory es =>
      rw [kind?_cons_directory] at hdone
      obtain ⟨child, hchild, hdone⟩ := Option.bind_eq_some_iff.mp hdone
      rw [List.cons_append, put?_cons_directory, Option.map_eq_none_iff, hchild,
        Option.getD_some] at h
      rw [List.cons_append, kind?_cons_directory, hchild, Option.bind_some]
      exact ih hdone h

/-! ## Following a path through directories that were made -/

/-- Components that do not lead back lead to a tree, with the directories above it. -/
inductive OnWay (t : FileTree) : List Text → List FileTree → FileTree → Prop
  | root : OnWay t [] [] t
  | enter {done : List Text} {above : List FileTree} {es : List (Text × FileTree)} {name : Text}
      {c : FileTree} (h : OnWay t done above (.directory es)) (hc : childNamed? name es = some c) :
      OnWay t (done ++ [name]) (.directory es :: above) c

namespace OnWay

theorem lookup?_eq (h : OnWay t done above c) : t.lookup? done = some c := by
  induction h with
  | root => exact lookup?_nil t
  | enter _ hc ih => simp [lookup?_append, ih, hc]

theorem kind?_eq (h : OnWay t done above c) : t.kind? done = some c.isDirectory := by
  rw [kind?, h.lookup?_eq, Option.map_some]

theorem exists_directory (h : OnWay t done above c) (hdone : t.kind? done = some true) :
    ∃ es, c = .directory es := by
  rw [h.kind?_eq] at hdone
  cases c with
  | file content => cases hdone
  | directory es => exact ⟨es, rfl⟩

/-- Two dots lead to the directory above. -/
theorem back (h : OnWay t done above (.directory es)) :
    ∃ above' c, OnWay t done.dropLast above' c ∧
      ∀ more, follow above (.directory es) (['.', '.'] :: more) = follow above' c more := by
  cases h with
  | root => exact ⟨[], .directory es, .root, fun more ↦ rfl⟩
  | @enter done above es' name _ h _ =>
    exact ⟨above, .directory es', by rwa [List.dropLast_concat], fun more ↦ rfl⟩

/-- A name leads to what the directory has under it. -/
theorem forward {b : Bool} (h : OnWay t done above (.directory es)) (hname : name ≠ ['.', '.'])
    (hkind : t.kind? (done ++ [name]) = some b) :
    ∃ c, OnWay t (done ++ [name]) (.directory es :: above) c ∧
      ∀ more, follow above (.directory es) (name :: more) = follow (.directory es :: above) c more := by
  rw [kind?, lookup?_append, h.lookup?_eq, Option.bind_some, lookup?_cons_directory] at hkind
  cases hc : childNamed? name es with
  | none => simp [hc] at hkind
  | some c => exact ⟨c, .enter h hc, fun more ↦ by rw [follow_cons_of_ne hname, hc, Option.bind_some]⟩

end OnWay

/-- What holds between a tree and the tree with one directory put in it holds between a tree and the
tree with all directories along a path. -/
theorem makeDirectories_of_put? {r : FileTree → FileTree → Prop} (hrefl : ∀ t, r t t)
    (htrans : ∀ {t t' u}, r t t' → r t' u → r t u)
    (hput : ∀ {parts t t'}, put? empty parts t = some t' → r t t')
    (t : FileTree) (done parts : List Text) : r t (makeDirectories t done parts).1 := by
  induction parts generalizing t done with
  | nil => exact hrefl t
  | cons name parts ih =>
    rw [makeDirectories]
    split
    · exact ih t done.dropLast
    · split
      · exact hrefl t
      · next t' h => exact htrans (hput h) (ih t' (done ++ [name]))

theorem Extends.of_makeDirectories {place : Option (List Text)} (hext : Extends t' u)
    (hmake : makeDirectories t done parts = (t', place)) : Extends t u := by
  have hmade := makeDirectories_of_put? Extends.refl .trans extends_put? t done parts
  rw [hmake] at hmade
  exact hmade.trans hext

theorem follow_file_of_ne_nil (content : Text.Bytes) (hparts : parts ≠ []) :
    follow above (.file content) parts = none := by
  obtain ⟨name, parts, rfl⟩ := List.exists_cons_of_ne_nil hparts
  rfl

/-- Following components comes to a directory, whatever is put behind them; or a file stands in the
way, and nothing behind it is found. -/
def Arrives (u : FileTree) (above : List FileTree) (c : FileTree) (parts : List Text) :
    Option (List Text) → Prop
  | some place => ∃ above' es, OnWay u place above' (.directory es) ∧
      ∀ more, follow above c (parts ++ more) = follow above' (.directory es) more
  | none => ∀ more, more ≠ [] → follow above c (parts ++ more) = none

theorem Arrives.of_follow_eq {place : Option (List Text)} {above' : List FileTree} {c' : FileTree}
    (h : Arrives u above' c' parts place)
    (hstep : ∀ more, follow above c (name :: more) = follow above' c' more) :
    Arrives u above c (name :: parts) place := by
  cases place with
  | none =>
    intro more hmore
    rw [List.cons_append, hstep, h more hmore]
  | some place =>
    obtain ⟨above'', es, hway, hfollow⟩ := h
    exact ⟨above'', es, hway, fun more ↦ by rw [List.cons_append, hstep, hfollow]⟩

/-- In the tree left, and in all that extend it, the components along which directories are made
lead to the place reached. -/
theorem arrives_makeDirectories {place : Option (List Text)}
    (hmake : makeDirectories t done parts = (t', place)) (hdone : t.kind? done = some true)
    (hext : Extends t' u) (hway : OnWay u done above c) : Arrives u above c parts place := by
  -- The tree changes with every directory; the one that is followed, `u`, is the same throughout.
  induction parts generalizing t done above c with
  | nil =>
    cases hmake
    obtain ⟨es, rfl⟩ := hway.exists_directory (hext _ _ hdone)
    exact ⟨above, es, hway, fun more ↦ rfl⟩
  | cons name parts ih =>
    have hkept := hext.of_makeDirectories hmake
    obtain ⟨es, rfl⟩ := hway.exists_directory (hkept _ _ hdone)
    rw [makeDirectories] at hmake
    by_cases hname : name = ['.', '.']
    · rw [if_pos (by simpa using hname)] at hmake
      obtain ⟨above', c, hway', hstep⟩ := hway.back
      rw [hname]
      exact (ih hmake (kind?_dropLast hdone) hway').of_follow_eq hstep
    · rw [if_neg (by simpa using hname)] at hmake
      cases hput : put? empty (done ++ [name]) t with
      | none =>
        -- A file stands in the way, and something is still to come behind it.
        rw [hput] at hmake
        cases hmake
        have hfile := hkept _ _ (kind?_of_put?_eq_none hdone hput)
        obtain ⟨c, hway', hstep⟩ := hway.forward hname hfile
        rw [hway'.kind?_eq] at hfile
        cases c with
        | file content =>
          intro more hmore
          rw [List.cons_append, hstep, follow_file_of_ne_nil content (by simp [hmore])]
        | directory es' => cases hfile
      | some t₁ =>
        rw [hput] at hmake
        have hmade := kind?_put?_empty hput
        have hkept' := hext.of_makeDirectories hmake
        obtain ⟨c, hway', hstep⟩ := hway.forward hname (hkept' _ _ hmade)
        exact (ih hmake hmade hway').of_follow_eq hstep

/-! ## Files stay as they are while directories are made -/

/-- The trees have the same files, with the same content. -/
def SameFiles (t u : FileTree) : Prop :=
  ∀ parts content, Leads t parts (.file content) ↔ Leads u parts (.file content)

theorem SameFiles.refl (t : FileTree) : SameFiles t t :=
  fun _ _ ↦ Iff.rfl

theorem SameFiles.trans (h : SameFiles t t') (h' : SameFiles t' u) : SameFiles t u :=
  fun parts content ↦ (h parts content).trans (h' parts content)

/-- An entry is exchanged in its place, or added behind the others. -/
theorem setEntry_eq_or (name : Text) (es : List (Text × FileTree)) :
    (∃ front old back, childNamed? name es = some old ∧ es = front ++ (name, old) :: back ∧
      ∀ t, setEntry name t es = front ++ (name, t) :: back) ∨
    (childNamed? name es = none ∧ ∀ t, setEntry name t es = es ++ [(name, t)]) := by
  induction es with
  | nil => exact .inr ⟨rfl, fun t ↦ rfl⟩
  | cons e es ih =>
    obtain ⟨other, old⟩ := e
    by_cases hname : other = name
    · subst hname
      exact .inl ⟨[], old, es, by simp [childNamed?], rfl, fun t ↦ by simp [setEntry]⟩
    · rcases ih with ⟨front, old', back, hchild, heq, hset⟩ | ⟨hchild, hset⟩
      · refine .inl ⟨(other, old) :: front, old', back, by simpa [childNamed?, hname] using hchild,
          by rw [heq]; rfl, fun t ↦ by simp [setEntry, hname, hset]⟩
      · exact .inr ⟨by simpa [childNamed?, hname] using hchild, fun t ↦ by
          simp [setEntry, hname, hset]⟩

theorem sameFiles_setEntry (h : SameFiles ((childNamed? name es).getD empty) u) :
    SameFiles (.directory es) (.directory (setEntry name u es)) := by
  intro parts content
  cases parts with
  | nil => simp [leads_nil_iff]
  | cons first parts =>
    rw [leads_cons_iff, leads_cons_iff]
    rcases setEntry_eq_or name es with ⟨front, old, back, hchild, heq, hset⟩ | ⟨hchild, hset⟩
    · rw [hchild, Option.getD_some] at h
      rw [hset, heq]
      simp only [List.mem_append, List.mem_cons, Prod.mk.injEq, or_and_right, exists_or, and_assoc,
        exists_and_left, exists_eq_left, h parts content]
    · rw [hchild, Option.getD_none] at h
      have hnone : ¬ Leads u parts (.file content) := by
        rw [← h parts content]
        rintro (_ | ⟨he, _⟩)
        exact absurd he List.not_mem_nil
      simp [hset, or_and_right, exists_or, hnone]

theorem sameFiles_put?_empty (h : put? empty parts t = some t') : SameFiles t t' := by
  induction parts generalizing t t' with
  | nil =>
    rcases put?_nil_eq_some h with ⟨-, -, rfl⟩ | ⟨hnew, -⟩
    · exact .refl t'
    · cases hnew
  | cons name parts ih =>
    obtain ⟨es, u, rfl, rfl, hu⟩ := put?_cons_eq_some h
    have hmissing : missing empty parts = empty := by simp [missing, empty, isDirectory]
    rw [hmissing] at hu
    exact sameFiles_setEntry (ih hu)

/-! ## The tree that writing leaves -/

variable {content : Text.Bytes} {a : Attempt}

/-- How writing a file ends: there are no components, a name has a null character, a file stands in
the way of a directory, a directory stands in the way of the file, or the file is written. -/
inductive Writes (t : FileTree) (content : Text.Bytes) : List Text → FileTree → Attempt → Prop
  | nowhere : Writes t content [] t .blocked
  | nullAbove {init : List Text} (name : Text) (h : init.any hasNull = true) :
      Writes t content (init ++ [name]) t .invalid
  | blocked {init : List Text} {t' : FileTree} (name : Text)
      (hmake : makeDirectories t [] init = (t', none)) :
      Writes t content (init ++ [name]) t' .blocked
  | nullName {init place : List Text} {name : Text} {t' : FileTree}
      (hmake : makeDirectories t [] init = (t', some place)) (h : hasNull name = true) :
      Writes t content (init ++ [name]) t' .invalid
  | refused {init place : List Text} {name : Text} {t' : FileTree}
      (hmake : makeDirectories t [] init = (t', some place))
      (h : name = ['.', '.'] ∨ put? (.file content) (place ++ [name]) t' = none) :
      Writes t content (init ++ [name]) t' .blocked
  | done {init place : List Text} {name : Text} {t' u : FileTree}
      (hmake : makeDirectories t [] init = (t', some place))
      (hnull : (init ++ [name]).any hasNull = false) (hname : name ≠ ['.', '.'])
      (hput : put? (.file content) (place ++ [name]) t' = some u) :
      Writes t content (init ++ [name]) u .written

theorem writes_write (t : FileTree) (parts : List Text) (content : Text.Bytes) :
    Writes t content parts (t.write parts content).1 (t.write parts content).2 := by
  rcases List.eq_nil_or_concat' parts with rfl | ⟨init, name, rfl⟩
  · exact .nowhere
  · rw [write]
    simp only [List.getLast?_concat, List.dropLast_concat]
    split
    · next habove => exact .nullAbove name habove
    · next habove =>
      split
      · next t' hmake => exact .blocked name hmake
      · next t' place hmake =>
        split
        · next hnull => exact .nullName hmake hnull
        · next hnull =>
          split
          · next hname => exact .refused hmake (.inl (by simpa using hname))
          · next hname =>
            split
            · next hput => exact .refused hmake (.inr hput)
            · next u hput =>
              refine .done hmake ?_ (by simpa using hname) hput
              rw [List.any_append, List.any_cons, List.any_nil, Bool.eq_false_iff.mpr habove,
                Bool.eq_false_iff.mpr hnull]
              rfl

theorem writes_of_write (h : t.write parts content = (u, a)) : Writes t content parts u a := by
  have hwrites := writes_write t parts content
  rwa [h] at hwrites

/-- A null character keeps the components from being written to: one of the directories has it in its
name, or they can be made and the file has it. -/
def NullOnWay (t : FileTree) (parts : List Text) : Prop :=
  ∃ init name, parts = init ++ [name] ∧ (init.any hasNull = true ∨
    hasNull name = true ∧ ∃ t' place, makeDirectories t [] init = (t', some place))

theorem write_eq_invalid_iff : (t.write parts content).2 = .invalid ↔ NullOnWay t parts := by
  constructor
  · intro h
    rcases hwrite : t.write parts content with ⟨u, a⟩
    rw [hwrite] at h
    subst h
    cases writes_of_write hwrite with
    | nullAbove name habove => exact ⟨_, name, rfl, .inl habove⟩
    | nullName hmake hnull => exact ⟨_, _, rfl, .inr ⟨hnull, _, _, hmake⟩⟩
  · rintro ⟨init, name, rfl, h⟩
    rw [write]
    simp only [List.getLast?_concat, List.dropLast_concat]
    split
    · rfl
    · next habove =>
      obtain ⟨hnull, t', place, hmake⟩ := h.resolve_left habove
      simp only [hmake, hnull, if_true]

/-- Where no file was written, all files are as before. -/
theorem sameFiles_of_write (h : t.write parts content = (u, a)) (ha : a ≠ .written) :
    SameFiles t u := by
  have hmade {init : List Text} {t' : FileTree} {place : Option (List Text)}
      (hmake : makeDirectories t [] init = (t', place)) : SameFiles t t' := by
    have hsame := makeDirectories_of_put? SameFiles.refl .trans sameFiles_put?_empty t [] init
    rwa [hmake] at hsame
  cases writes_of_write h with
  | nowhere => exact .refl t
  | nullAbove => exact .refl t
  | blocked _ hmake => exact hmade hmake
  | nullName hmake => exact hmade hmake
  | refused hmake => exact hmade hmake
  | done => exact absurd rfl ha

/-- In a directory, a name leads to what stands under it. -/
theorem OnWay.follow_singleton (h : OnWay t done above (.directory es))
    (hname : name ≠ ['.', '.']) :
    follow above (.directory es) [name] = t.lookup? (done ++ [name]) := by
  rw [follow_cons_of_ne hname, lookup?_append, h.lookup?_eq, Option.bind_some,
    lookup?_cons_directory]
  exact Option.bind_congr fun c _ ↦ (lookup?_nil c).symm

/-- The components of a file that was written lead to it. -/
theorem follow_of_write_written (ht : t.isDirectory = true)
    (h : t.write parts content = (u, .written)) : u.follow [] parts = some (.file content) := by
  have hroot : t.kind? [] = some true := ht ▸ kind?_nil t
  cases writes_of_write h with
  | done hmake _ hname hput =>
    obtain ⟨above, es', hway, hfollow⟩ :=
      arrives_makeDirectories hmake hroot (extends_put? hput) .root
    exact ((hfollow _).trans (hway.follow_singleton hname)).trans (lookup?_put?_file hput)

/-- If something was in the way, the components lead to no file. -/
theorem follow_of_write_blocked (ht : t.isDirectory = true)
    (h : t.write parts content = (u, .blocked)) (other : Text.Bytes) :
    u.follow [] parts ≠ some (.file other) := by
  have hroot : t.kind? [] = some true := ht ▸ kind?_nil t
  cases writes_of_write h with
  | nowhere =>
    rw [follow, ne_eq, Option.some.injEq]
    rintro rfl
    cases ht
  | blocked name hmake =>
    have hnone := arrives_makeDirectories hmake hroot (.refl u) .root
    exact (hnone [_] (by simp)).trans_ne (by simp)
  | @refused init place name _ hmake hrefused =>
    obtain ⟨above, es', hway, hfollow⟩ :=
      arrives_makeDirectories hmake hroot (.refl u) .root
    have hplace : u.kind? place = some true := hway.kind?_eq
    by_cases hname : name = ['.', '.']
    · obtain ⟨above', c, hway', hback⟩ := hway.back
      obtain ⟨es'', rfl⟩ := hway'.exists_directory (kind?_dropLast hplace)
      subst hname
      exact ((hfollow _).trans (hback [])).trans_ne (by simp [follow])
    · have hkind := kind?_of_put?_eq_none hplace (hrefused.resolve_left hname)
      obtain ⟨es'', hlookup⟩ := kind?_eq_true_iff.mp hkind
      exact ((hfollow _).trans (hway.follow_singleton hname)).trans_ne (by simp [hlookup])

end CodeHealth.FileTree
