import CodeHealth.Proofs.Source.Peg
import CodeHealth.Proofs.Text.Basic
import CodeHealth.Reviewer
import Mathlib.Data.List.Pairwise

/-!
# Where units lie

The units of a document lie in it one behind the other, each with its own part of the text, its name
in that part, and its methods in the same way.
-/

namespace CodeHealth

/-- A part of a text with its offsets, not empty. -/
structure Text.IsPart (t : Text) (start stop : Int) (part : Text) : Prop where
  nonneg : 0 ≤ start
  nonempty : start < stop
  within : stop ≤ t.length
  eq_slice : part = t.slice start stop

def Shape.methods : Shape → List Method
  | .function _ => []
  | .classOf ms => ms

/-- The unit is a part of the document, with its name in it and its methods, in order. -/
structure CodeUnit.LiesIn (u : CodeUnit) (t : Text) : Prop where
  part : t.IsPart u.start u.stop u.text
  named : ∀ name ∈ u.name, name <:+: u.text
  methods : ∀ m ∈ u.shape.methods, t.IsPart m.start m.stop m.text ∧ u.start ≤ m.start ∧
    m.stop ≤ u.stop
  ordered : u.shape.methods.Pairwise fun m m' ↦ m.stop ≤ m'.start

theorem Text.IsPart.isInfix_of_le {t : Text} {start stop start' stop' : Int} {part part' : Text}
    (h : t.IsPart start stop part) (h' : t.IsPart start' stop' part') (hstart : start ≤ start')
    (hstop : stop' ≤ stop) : part' <:+: part := by
  obtain ⟨a, rfl⟩ := Int.eq_ofNat_of_zero_le h.nonneg
  obtain ⟨a', rfl⟩ := Int.eq_ofNat_of_zero_le h'.nonneg
  obtain ⟨b, rfl⟩ := Int.eq_ofNat_of_zero_le (Int.le_trans h.nonneg (Int.le_of_lt h.nonempty))
  obtain ⟨b', rfl⟩ := Int.eq_ofNat_of_zero_le (Int.le_trans h'.nonneg (Int.le_of_lt h'.nonempty))
  rw [h.eq_slice, h'.eq_slice, slice_natCast, slice_natCast]
  exact take_drop_infix (Int.ofNat_le.mp hstart) (Int.ofNat_le.mp hstop) t

theorem CodeUnit.LiesIn.infix_of_mem_methods {u : CodeUnit} {t : Text} (h : u.LiesIn t)
    {m : Method} (hm : m ∈ u.shape.methods) : m.text <:+: u.text := by
  obtain ⟨hpart, hstart, hstop⟩ := h.methods m hm
  exact h.part.isInfix_of_le hpart hstart hstop

namespace Source

/-! ## The grammar -/

/-- All rules but the one of a whole document read something. -/
def Rule.consumes : Rule → Bool
  | .program => false
  | _ => true

theorem filled_grammar (d : Dialect) : Peg.Filled Rule.consumes (grammar d) := by
  obtain ⟨typed, markup⟩ := d
  constructor
  · intro r hr
    cases r with
    | program => cases hr
    | _ => cases typed <;> cases markup <;> rfl
  · intro r
    cases r with
    | assignment withIn resultType =>
      cases typed <;> cases markup <;> cases withIn <;> cases resultType <;> rfl
    | _ => cases typed <;> cases markup <;> rfl

namespace Reader

/-- The reader of a whole document. -/
abbrev ofText (t : Text) : Reader := ⟨t, .ofText t⟩

variable {t : Text} {p q : Placed}

/-! ## Offsets -/

theorem isPart_of_fits (h : p.Fits t) :
    t.IsPart ((ofText t).start p) ((ofText t).stop p) ((ofText t).textOf p) where
  nonneg := Int.natCast_nonneg _
  nonempty := Int.ofNat_lt.mpr (h.isBoundary_start.offset_lt h.isBoundary_stop h.start_lt_stop)
  within := Int.ofNat_le.mpr h.isBoundary_stop.offset_le_length
  eq_slice := (t.slice_natCast _ _).symm

theorem start_le_of_below (h : p.Fits t) (hq : p.Below q) :
    (ofText t).start p ≤ (ofText t).start q := by
  obtain ⟨hfits, hstart, -⟩ := h.of_below hq
  exact h.isBoundary_start.offset_le hfits.isBoundary_start hstart

theorem stop_le_of_below (h : p.Fits t) (hq : p.Below q) :
    (ofText t).stop q ≤ (ofText t).stop p := by
  obtain ⟨hfits, -, hstop⟩ := h.of_below hq
  exact hfits.isBoundary_stop.offset_le h.isBoundary_stop hstop

theorem textOf_infix_of_below (h : p.Fits t) (hq : p.Below q) :
    (ofText t).textOf q <:+: (ofText t).textOf p :=
  Text.take_drop_infix (start_le_of_below h hq) (stop_le_of_below h hq) t

/-- What lies in order in the bytes lies in order in the text. -/
theorem pairwise_offsets {ps : List Placed} (hfits : ∀ p ∈ ps, p.Fits t)
    (h : ps.Pairwise fun p q ↦ p.stop ≤ q.start) :
    ps.Pairwise fun p q ↦ (ofText t).stop p ≤ (ofText t).start q :=
  h.imp_of_mem fun hp hq hle ↦
    (hfits _ hp).isBoundary_stop.offset_le (hfits _ hq).isBoundary_start hle

/-! ## Units -/

theorem below_ambientDeclaration (p : Placed) : p.Below (ambientDeclaration p) := by
  rw [ambientDeclaration]
  cases hfind : p.children.find? fun q ↦ isDeclaration q.tree with
  | none => exact .refl
  | some q => exact .single (List.mem_of_find?_eq_some hfind)

theorem below_declaration (p : Placed) : p.Below (declaration p) := by
  rw [declaration]
  split
  · exact below_ambientDeclaration p
  · exact .refl

theorem exists_eq_methodAt {r : Reader} {ambient : Bool} {m : Method}
    (h : r.method? ambient p = some m) : ∃ branches, m = r.methodAt p branches := by
  rw [method?] at h
  split at h
  · split at h
    · cases h
    · split at h
      · cases h
      · exact ⟨_, (Option.some.inj h).symm⟩
  · split at h
    · exact ⟨_, (Option.some.inj h).symm⟩
    · cases h

/-- The methods of a declaration are members in its body, in order. -/
theorem methods_spec (h : p.Fits t) (ambient : Bool) :
    (∀ m ∈ (ofText t).methods ambient p, t.IsPart m.start m.stop m.text ∧
      (ofText t).start p ≤ m.start ∧ m.stop ≤ (ofText t).stop p) ∧
    ((ofText t).methods ambient p).Pairwise fun m m' ↦ m.stop ≤ m'.start := by
  rw [methods]
  cases hbody : p.child? .members with
  | none => exact ⟨fun m hm ↦ absurd hm List.not_mem_nil, .nil⟩
  | some body =>
    have hchild : body ∈ p.children := Placed.mem_children_of_child? hbody
    have hfits (q : Placed) (hq : q ∈ body.children) : q.Fits t :=
      (h.of_mem_children hchild).of_mem_children hq
    constructor
    · intro m hm
      obtain ⟨q, hq, hm⟩ := List.mem_filterMap.mp hm
      obtain ⟨branches, rfl⟩ := exists_eq_methodAt hm
      have hbelow : p.Below q := .tail (.single hchild) hq
      exact ⟨isPart_of_fits (hfits q hq), Int.ofNat_le.mpr (start_le_of_below h hbelow),
        Int.ofNat_le.mpr (stop_le_of_below h hbelow)⟩
    · refine (pairwise_offsets hfits body.pairwise_children).filterMap _ ?_
      intro q q' hle m hm m' hm'
      obtain ⟨branches, rfl⟩ := exists_eq_methodAt hm
      obtain ⟨branches', rfl⟩ := exists_eq_methodAt hm'
      exact Int.ofNat_le.mpr hle

theorem methods_of_shape? {r : Reader} {ambient : Bool} {shape : Shape}
    (h : r.shape? ambient p = some shape) :
    shape.methods = [] ∨ shape.methods = r.methods ambient p := by
  rw [shape?] at h
  split at h
  · cases h
    exact .inr rfl
  · split at h
    · cases h
      exact .inl rfl
    · split at h
      · cases h
        exact .inl rfl
      · cases h

/-- A unit is read off a declaration: the statement itself, or what stands behind `export` or
`declare`. -/
theorem exists_of_unit? {r : Reader} {u : CodeUnit} (h : r.unit? p = some u) :
    ∃ decl ambient shape, p.Below decl ∧ r.shape? ambient decl = some shape ∧
      u = ⟨r.nameOf decl, r.start p, r.stop p, r.textOf p, shape⟩ := by
  obtain ⟨shape, hshape, rfl⟩ := Option.map_eq_some_iff.mp h
  refine ⟨_, _, shape, ?_, hshape, rfl⟩
  split
  · exact (below_declaration p).trans (below_ambientDeclaration _)
  · exact below_declaration p

theorem unit?_token (r : Reader) (b : Nat) (gap x : Text) : r.unit? ⟨b, .token gap x⟩ = none := rfl

theorem liesIn_of_unit? {u : CodeUnit} (h : p.Fits t) (hu : (ofText t).unit? p = some u) :
    u.LiesIn t := by
  obtain ⟨decl, ambient, shape, hbelow, hshape, rfl⟩ := exists_of_unit? hu
  obtain ⟨hmethods, hordered⟩ := methods_spec (h.of_below hbelow).1 ambient
  refine ⟨isPart_of_fits h, ?_, ?_, ?_⟩
  · intro name hname
    obtain ⟨q, hq, rfl⟩ := Option.map_eq_some_iff.mp hname
    exact textOf_infix_of_below h (hbelow.tail (Placed.mem_children_of_child? hq))
  · intro m hm
    rcases methods_of_shape? hshape with hnone | hall
    · rw [hnone] at hm
      exact absurd hm List.not_mem_nil
    · rw [hall] at hm
      obtain ⟨hpart, hstart, hstop⟩ := hmethods m hm
      exact ⟨hpart, Int.le_trans (Int.ofNat_le.mpr (start_le_of_below h hbelow)) hstart,
        Int.le_trans hstop (Int.ofNat_le.mpr (stop_le_of_below h hbelow))⟩
  · rcases methods_of_shape? hshape with hnone | hall
    · rw [hnone]
      exact .nil
    · rw [hall]
      exact hordered

end Reader

/-! ## Documents -/

/-- The units of a document are read off solid trees that stand in it side by side. -/
theorem exists_units_eq (d : Dialect) (t : Text) :
    ∃ ps : List Placed, (∀ p ∈ ps, p.Fits t) ∧ ps.Pairwise (fun p q ↦ p.stop ≤ q.start) ∧
      units d t = ps.filterMap (Reader.ofText t).unit? := by
  obtain ⟨ts, rest, hread, hsolid, htext⟩ := (filled_grammar d).exists_read_eq .program t
  refine ⟨Placed.row 0 ts, fun p hp ↦ ?_, Placed.pairwise_row 0 ts, ?_⟩
  · exact Placed.fits_of_mem_row [] hsolid ⟨rest, htext.symm⟩ hp
  · -- The last token is what the grammar leaves unread, and no unit.
    rw [units, Dialect.read, hread, Tree.children, Placed.row_append, List.filterMap_append,
      Placed.row, Placed.row, List.filterMap_cons_none (Reader.unit?_token _ _ _ _),
      List.filterMap_nil, List.append_nil]

theorem pairwise_units (d : Dialect) (t : Text) :
    (units d t).Pairwise fun u v ↦ u.stop ≤ v.start := by
  obtain ⟨ps, hfits, hordered, hunits⟩ := exists_units_eq d t
  rw [hunits]
  refine (Reader.pairwise_offsets hfits hordered).filterMap _ ?_
  intro p q hle u hu v hv
  obtain ⟨-, -, -, -, -, rfl⟩ := Reader.exists_of_unit? hu
  obtain ⟨-, -, -, -, -, rfl⟩ := Reader.exists_of_unit? hv
  exact Int.ofNat_le.mpr hle

theorem liesIn_of_mem_units {d : Dialect} {t : Text} {u : CodeUnit} (h : u ∈ units d t) :
    u.LiesIn t := by
  obtain ⟨ps, hfits, -, hunits⟩ := exists_units_eq d t
  rw [hunits] at h
  obtain ⟨p, hp, hu⟩ := List.mem_filterMap.mp h
  exact Reader.liesIn_of_unit? (hfits p hp) hu

end Source

theorem Language.ofName?_name (l : Language) : ofName? l.name.toList = some l := by
  cases l <;> decide

theorem Language.eq_name_of_ofName? {n : Text} {l : Language} (h : ofName? n = some l) :
    n = l.name.toList := by
  have hl := List.find?_some h
  exact (eq_of_beq hl).symm

theorem readDocument_name (t file : Text) (l : Language) :
    readDocument t (some l.name.toList) file = ⟨Source.units l.dialect t, []⟩ := by
  simp [readDocument, Language.ofName?_name]

/-- A language is known by its name only. -/
theorem Language.bind_ofName?_eq_none {language : Option Text}
    (h : ∀ l : Language, language ≠ some l.name.toList) : language.bind ofName? = none := by
  rw [Option.bind_eq_none_iff]
  intro n hn
  rw [Option.eq_none_iff_forall_not_mem]
  intro l hl
  exact h l (hn.trans (congrArg some (eq_name_of_ofName? hl)))

namespace CodePoint

theorem textFrom_map_scalar (position : Nat) (t : Text) :
    textFrom position (t.map scalar) = .ok t := by
  induction t generalizing position with
  | nil => rfl
  | cons c t ih => rw [List.map_cons, textFrom, ih, Except.map]

theorem text_map_scalar (t : Text) : text (t.map scalar) = .ok t :=
  textFrom_map_scalar 0 t

theorem exists_textFrom_eq_error {s : List CodePoint} {n : Fin 0x800} (h : surrogate n ∈ s)
    (position : Nat) : ∃ e, textFrom position s = .error e := by
  induction s generalizing position with
  | nil => cases h
  | cons p s ih =>
    cases p with
    | surrogate k => exact ⟨_, rfl⟩
    | scalar c =>
      obtain ⟨e, he⟩ := ih (by simpa using h) (position + 1)
      exact ⟨e, by rw [textFrom, he, Except.map]⟩

theorem exists_text_eq_error {s : List CodePoint} {n : Fin 0x800} (h : surrogate n ∈ s) :
    ∃ e, text s = .error e :=
  exists_textFrom_eq_error h 0

end CodePoint

theorem readCodePoints_map_scalar (t : Text) (language : Option Text) (file : Text) :
    readCodePoints (t.map .scalar) language file = readDocument t language file := by
  rw [readCodePoints, CodePoint.text_map_scalar]

/-- A document without surrogates in a known language is read without errors into units that lie in
it, one behind the other. With a surrogate, or in any other language, there are no units and one
error about the file. -/
theorem readCodePoints_liesIn (s : List CodePoint) (file : Text) :
    (∀ (t : Text) (l : Language), s = t.map .scalar →
      (readCodePoints s (some l.name.toList) file).errors = [] ∧
      (∀ u ∈ (readCodePoints s (some l.name.toList) file).units, u.LiesIn t) ∧
      (readCodePoints s (some l.name.toList) file).units.Pairwise fun u v ↦ u.stop ≤ v.start) ∧
    ∀ language : Option Text,
      (∃ n, CodePoint.surrogate n ∈ s) ∨ (∀ l : Language, language ≠ some l.name.toList) →
      (readCodePoints s language file).units = [] ∧
      ∃ e, (readCodePoints s language file).errors = [e] ∧ e.file = file := by
  constructor
  · rintro t l rfl
    rw [readCodePoints_map_scalar, readDocument_name]
    exact ⟨rfl, fun u hu ↦ Source.liesIn_of_mem_units hu, Source.pairwise_units l.dialect t⟩
  · rintro language (⟨n, hn⟩ | hlanguage)
    · obtain ⟨e, he⟩ := CodePoint.exists_text_eq_error hn
      rw [readCodePoints, he]
      exact ⟨rfl, _, rfl, rfl⟩
    · cases htext : CodePoint.text s with
      | error e =>
        rw [readCodePoints, htext]
        exact ⟨rfl, _, rfl, rfl⟩
      | ok t =>
        rw [readCodePoints, htext]
        simp only
        rw [readDocument, Language.bind_ofName?_eq_none hlanguage]
        exact ⟨rfl, _, rfl, rfl⟩

/-- A class with two methods whose name takes two bytes, and a function. -/
def cafeSource : Text :=
  "class É { f() {} g() {} }\nfunction Ok() {}".toList

/-- Both units are found, with both methods, and lie where they stand. Cut short by a surrogate, or in
a language that is not known, the document gives one error. -/
theorem readCodePoints_liesIn_cafeSource :
    (readCodePoints (cafeSource.map .scalar) (some "typescript".toList) ['a']).units.map
        (fun u ↦ (u.start, u.stop, u.shape.methods.map Method.start)) =
      [(0, 25, [10, 17]), (26, 42, [])] ∧
    (∀ u ∈ (readCodePoints (cafeSource.map .scalar) (some "typescript".toList) ['a']).units,
      u.LiesIn cafeSource) ∧
    (∃ e, (readCodePoints (cafeSource.map .scalar ++ [.surrogate 0]) (some "typescript".toList)
      ['a']).errors = [e] ∧ e.file = ['a']) ∧
    ∃ e, (readCodePoints (cafeSource.map .scalar) (some "cobol".toList) ['a']).errors = [e] ∧
      e.file = ['a'] := by
  obtain ⟨hknown, hunknown⟩ := readCodePoints_liesIn (cafeSource.map .scalar) ['a']
  obtain ⟨-, hcut⟩ := readCodePoints_liesIn (cafeSource.map .scalar ++ [.surrogate 0]) ['a']
  refine ⟨by decide +kernel, (hknown cafeSource .typescript rfl).2.1, ?_, ?_⟩
  · exact (hcut (some "typescript".toList) (.inl ⟨0, by simp⟩)).2
  · refine (hunknown (some "cobol".toList) (.inr fun l ↦ ?_)).2
    cases l <;> decide

/-- Not every document in a known language is read: a lone surrogate is an error. -/
theorem readCodePoints_lone_surrogate :
    readCodePoints [.surrogate 0] (some Language.typescript.name.toList) ['a'] =
      ⟨[], [⟨['a'], ("'utf-8' codec can't encode character '\\ud800' in position 0: " ++
        "surrogates not allowed").toList⟩]⟩ := by
  decide +kernel

end CodeHealth
