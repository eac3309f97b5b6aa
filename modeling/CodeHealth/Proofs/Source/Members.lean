import CodeHealth.Measure
import CodeHealth.Proofs.Source.Branches
import CodeHealth.Proofs.Source.Separation
import CodeHealth.Proofs.Source.Units

/-!
# Members that count as methods

Which members of a class count as methods, and what is known of them, is told by their trees alone,
wherever they stand in a document.
-/

namespace CodeHealth.Source

namespace Tree

/-- The gap before the first token of a tree. -/
def gap (t : Tree) : Text :=
  (t.first?.map Prod.fst).getD []

/-- The text of a tree without the gap before it. -/
def ownText (t : Tree) : Text :=
  t.text.drop t.gap.length

/-- The name of a declaration or member, as it is written. -/
def name? (t : Tree) : Option Text :=
  (t.children.find? (isKind .name)).map ownText

def isAccessor (t : Tree) : Bool :=
  t.hasModifier "get".toList || t.hasModifier "set".toList

def isConstructor (t : Tree) : Bool :=
  t.name? == some "constructor".toList

/-- Accessors and constructors, with or without a body. -/
def isSpecial (t : Tree) : Bool :=
  t.isAccessor || t.isConstructor

/-- The kinds of members that count as methods, of an ambient class or of any other. -/
def isMethodLike (ambient : Bool) (t : Tree) : Bool :=
  t.isKind .method || ambient && t.isKind .methodSignature

/-- Whether a member counts as a method. -/
def counts (ambient : Bool) (t : Tree) : Bool :=
  t.isMethodLike ambient && !t.isSpecial || t.isKind .abstractSignature

/-- The members of a class. -/
def members (t : Tree) : List Tree :=
  ((t.children.find? (isKind .members)).map children).getD []

/-- The number of branches below the body of a member. -/
def bodyBranches (t : Tree) : Nat :=
  ((t.children.find? (isKind .body)).map branchCount).getD 0

theorem isKind_iff {k : Kind} {t : Tree} : t.isKind k = true ↔ t.kind? = some k :=
  beq_iff_eq

theorem isKind_eq_false_of_ne {k k' : Kind} {t : Tree} (h : t.isKind k = true) (hne : k ≠ k') :
    t.isKind k' = false := by
  rw [isKind_iff] at h
  simpa [isKind, h] using hne

theorem Apart.bodyBranches_eq_zero {t : Tree} (h : t.Apart .abstractSignature .body)
    (habstract : t.isKind .abstractSignature = true) : t.bodyBranches = 0 := by
  have hnone : t.children.find? (isKind .body) = none :=
    List.find?_eq_none.mpr fun u hu ↦ by rw [h.isKind_child habstract hu]; exact Bool.noConfusion
  rw [bodyBranches, hnone]
  rfl

end Tree

namespace Placed

theorem map_tree_row (b : Nat) (ts : List Tree) : (row b ts).map Placed.tree = ts := by
  induction ts generalizing b with
  | nil => rfl
  | cons t ts ih => rw [row, List.map_cons, ih]

theorem map_tree_children (p : Placed) : p.children.map Placed.tree = p.tree.children :=
  map_tree_row _ _

theorem map_tree_child? (p : Placed) (k : Kind) :
    (p.child? k).map Placed.tree = p.tree.children.find? (Tree.isKind k) := by
  rw [← map_tree_children, List.find?_map]
  rfl

theorem tree_mem_of_mem_children {p q : Placed} (h : q ∈ p.children) :
    q.tree ∈ p.tree.children :=
  p.map_tree_children ▸ List.mem_map_of_mem h

theorem apart_of_below {K k : Kind} {p q : Placed} (h : p.tree.Apart K k) (hq : p.Below q) :
    q.tree.Apart K k := by
  induction hq with
  | refl => exact h
  | tail _ hchild ih => exact ih.of_mem_children (tree_mem_of_mem_children hchild)

end Placed

namespace Reader

variable {t : Text} {p : Placed}

/-! ## What the reader finds -/

theorem textOf_eq (h : p.Fits t) : (ofText t).textOf p = p.tree.ownText := by
  obtain ⟨gap, token, rest, hfirst, -, htext⟩ := h.solid.exists_first?
  obtain ⟨before, hbase, after, ht⟩ := h.stands
  rw [htext, List.append_assoc gap, ← List.append_assoc before, List.append_assoc] at ht
  have hgap : p.tree.gap = gap := by rw [Tree.gap, hfirst]; rfl
  have hown : p.tree.ownText = token ++ rest := by
    rw [Tree.ownText, hgap, htext, List.append_assoc, List.drop_left]
  have hstart : (ofText t).start p = (before ++ gap).length := by
    rw [start, Placed.start, hfirst, hbase]
    exact byteSize_append before gap ▸ Text.offset_byteSize ⟨_, ht⟩
  have hstop : (ofText t).stop p = (before ++ gap).length + (token ++ rest).length := by
    rw [stop, Placed.stop, hbase, htext, List.append_assoc, ← byteSize_append, ← List.append_assoc,
      ← List.length_append]
    exact Text.offset_byteSize ⟨after, by rw [List.append_assoc, ht]⟩
  rw [textOf, hstart, hstop, hown, Nat.add_sub_cancel_left, ← ht]
  change (((before ++ gap) ++ ((token ++ rest) ++ after)).drop _).take _ = _
  rw [List.drop_left, List.take_left]

theorem nameOf_eq (h : p.Fits t) : (ofText t).nameOf p = p.tree.name? := by
  rw [nameOf, Tree.name?, ← Placed.map_tree_child?, Option.map_map]
  cases hname : p.child? .name with
  | none => rfl
  | some q => exact congrArg some (textOf_eq (h.of_mem_children (Placed.mem_children_of_child? hname)))

theorem branchesOf_eq (p : Placed) : branchesOf p = p.tree.bodyBranches := by
  rw [branchesOf, Tree.bodyBranches, ← Placed.map_tree_child?]
  cases p.child? .body with
  | none => rfl
  | some body => rfl

theorem method?_eq (h : p.Fits t) (hapart : p.tree.Apart .abstractSignature .body) (ambient : Bool) :
    (ofText t).method? ambient p =
      if p.tree.counts ambient then some ((ofText t).methodAt p p.tree.bodyBranches) else none := by
  have hmethod? : (ofText t).method? ambient p =
      if p.tree.isMethodLike ambient then
        if p.tree.isAccessor then none
        else if p.tree.isConstructor then none
        else some ((ofText t).methodAt p p.tree.bodyBranches)
      else if p.tree.isKind .abstractSignature then some ((ofText t).methodAt p 0)
      else none := by
    rw [method?, nameOf_eq h, branchesOf_eq]
    rfl
  rw [hmethod?, Tree.counts, Tree.isSpecial]
  cases habstract : p.tree.isKind .abstractSignature with
  | true =>
    -- A tree has one kind only, so what is abstract is not one of the others.
    have hother {k : Kind} (hne : Kind.abstractSignature ≠ k) : p.tree.isKind k = false :=
      Tree.isKind_eq_false_of_ne habstract hne
    have hmethod : p.tree.isMethodLike ambient = false := by
      rw [Tree.isMethodLike, @hother .method (by decide), @hother .methodSignature (by decide),
        Bool.and_false, Bool.or_false]
    rw [hmethod, hapart.bodyBranches_eq_zero habstract]
    rfl
  | false =>
    cases p.tree.isMethodLike ambient <;> cases p.tree.isAccessor <;>
      cases p.tree.isConstructor <;> rfl

/-! ## Declarations -/

/-- The declaration in a statement, and whether it is ambient. -/
def declared (p : Placed) : Bool × Placed :=
  let outer := declaration p
  if outer.tree.isKind .ambient then (true, ambientDeclaration outer) else (false, outer)

theorem unit?_eq (r : Reader) (p : Placed) :
    r.unit? p = (r.shape? (declared p).1 (declared p).2).map fun shape ↦
      ⟨r.nameOf (declared p).2, r.start p, r.stop p, r.textOf p, shape⟩ := by
  rw [unit?, declared]
  cases (declaration p).tree.isKind .ambient <;> rfl

theorem below_declared (p : Placed) : p.Below (declared p).2 := by
  rw [declared]
  split
  · exact (below_declaration p).trans (below_ambientDeclaration _)
  · exact below_declaration p

theorem isKind_of_shape? {r : Reader} {ambient : Bool} {ms : List Method}
    (h : r.shape? ambient p = some (.classOf ms)) : p.tree.isKind .classDecl = true := by
  rw [shape?] at h
  split at h
  · assumption
  · split at h
    · cases h
    · split at h
      · cases h
      · cases h

end Reader

/-- The class in a statement: its unit, whether it is ambient, and its members. -/
def Reader.class? (r : Reader) (p : Placed) : Option (CodeUnit × Bool × List Tree) :=
  if (declared p).2.tree.isKind .classDecl then
    (r.unit? p).map fun u ↦ (u, (declared p).1, (declared p).2.tree.members)
  else none

/-- The classes of a document, in order. -/
def classes (d : Dialect) (t : Text) : List (CodeUnit × Bool × List Tree) :=
  (Placed.row 0 (d.read t).children).filterMap (Reader.ofText t).class?

/-- In the document `t`, the unit `u` is read from a class with these members, which is ambient or
not. -/
def IsClassOf (d : Dialect) (t : Text) (u : CodeUnit) (ambient : Bool) (members : List Tree) : Prop :=
  (u, ambient, members) ∈ classes d t

section Documents

variable {d : Dialect} {t : Text} {u : CodeUnit} {p : Placed}

theorem isClassOf_iff {ambient : Bool} {members : List Tree} :
    IsClassOf d t u ambient members ↔
      ∃ p ∈ Placed.row 0 (d.read t).children, (Reader.ofText t).unit? p = some u ∧
        (Reader.declared p).1 = ambient ∧ (Reader.declared p).2.tree.isKind .classDecl = true ∧
        (Reader.declared p).2.tree.members = members := by
  rw [IsClassOf, classes, List.mem_filterMap]
  refine exists_congr fun p ↦ and_congr_right fun _ ↦ ?_
  rw [Reader.class?, Option.ite_none_right_eq_some, Option.map_eq_some_iff]
  constructor
  · rintro ⟨hclass, v, hunit, he⟩
    cases he
    exact ⟨hunit, rfl, hclass, rfl⟩
  · rintro ⟨hunit, rfl, hclass, rfl⟩
    exact ⟨hclass, u, hunit, rfl⟩

/-- The units that are no functions are read from classes. -/
theorem exists_isClassOf_iff :
    (∃ ambient members, IsClassOf d t u ambient members) ↔
      u ∈ units d t ∧ u.isFunction = false := by
  constructor
  · rintro ⟨ambient, members, h⟩
    obtain ⟨p, hp, hunit, -, hclass, -⟩ := isClassOf_iff.mp h
    refine ⟨List.mem_filterMap.mpr ⟨p, hp, hunit⟩, ?_⟩
    rw [Reader.unit?_eq, Reader.shape?, if_pos hclass] at hunit
    rw [← Option.some.inj hunit]
    rfl
  · rintro ⟨hu, hclass⟩
    obtain ⟨p, hp, hunit⟩ := List.mem_filterMap.mp hu
    refine ⟨_, _, isClassOf_iff.mpr ⟨p, hp, hunit, rfl, ?_, rfl⟩⟩
    rw [Reader.unit?_eq] at hunit
    obtain ⟨shape, hshape, rfl⟩ := Option.map_eq_some_iff.mp hunit
    cases shape with
    | function branches => cases hclass
    | classOf ms => exact Reader.isKind_of_shape? hshape

theorem fits_of_unit? (hp : p ∈ Placed.row 0 (d.read t).children)
    (hunit : (Reader.ofText t).unit? p = some u) : p.Fits t := by
  obtain ⟨ts, rest, hread, hsolid, htext⟩ := (filled_grammar d).exists_read_eq .program t
  rw [Dialect.read, hread, Tree.children, Placed.row_append] at hp
  rcases List.mem_append.mp hp with hp | hp
  · exact Placed.fits_of_mem_row [] hsolid ⟨rest, htext.symm⟩ hp
  · -- The last token is what the grammar leaves unread, and no unit.
    rw [Placed.row, Placed.row, List.mem_singleton] at hp
    rw [hp, Reader.unit?_token] at hunit
    cases hunit

theorem apart_of_mem_row (hp : p ∈ Placed.row 0 (d.read t).children) :
    p.tree.Apart .abstractSignature .body := by
  refine (separated_grammar d).apart_read .program t ?_
  have hmem := List.mem_map_of_mem (f := Placed.tree) hp
  rwa [Placed.map_tree_row] at hmem

/-- The members stand side by side in the document, and the methods are read off them. -/
theorem IsClassOf.exists_placed {ambient : Bool} {members : List Tree}
    (h : IsClassOf d t u ambient members) :
    ∃ ps : List Placed, ps.map Placed.tree = members ∧
      (∀ p ∈ ps, p.Fits t ∧ p.tree.Apart .abstractSignature .body) ∧
      u.shape = .classOf (ps.filterMap ((Reader.ofText t).method? ambient)) := by
  obtain ⟨p, hp, hunit, rfl, hclass, rfl⟩ := isClassOf_iff.mp h
  have hfits := ((fits_of_unit? hp hunit).of_below (Reader.below_declared p)).1
  have hapart := Placed.apart_of_below (apart_of_mem_row hp) (Reader.below_declared p)
  have hshape : u.shape =
      .classOf ((Reader.ofText t).methods (Reader.declared p).1 (Reader.declared p).2) := by
    rw [Reader.unit?_eq, Reader.shape?, if_pos hclass] at hunit
    rw [← Option.some.inj hunit]
  rw [Tree.members, ← Placed.map_tree_child?, hshape, Reader.methods]
  cases hbody : (Reader.declared p).2.child? .members with
  | none => exact ⟨[], rfl, fun _ hq ↦ absurd hq List.not_mem_nil, rfl⟩
  | some body =>
    have hchild := Placed.mem_children_of_child? hbody
    refine ⟨body.children, body.map_tree_children, fun q hq ↦ ⟨?_, ?_⟩, rfl⟩
    · exact (hfits.of_mem_children hchild).of_mem_children hq
    · exact Placed.apart_of_below hapart (.tail (.single hchild) hq)

/-- The methods of a class are its members that count, one by one. -/
theorem IsClassOf.map_methods {ambient : Bool} {members : List Tree}
    (h : IsClassOf d t u ambient members) :
    ∃ ms, u.shape = .classOf ms ∧
      ms.map (fun m ↦ (m.name, m.text, m.branches)) =
        (members.filter (Tree.counts ambient)).map fun m ↦
          (m.name?, m.ownText, (m.bodyBranches : Int)) := by
  obtain ⟨ps, rfl, hps, hshape⟩ := h.exists_placed
  refine ⟨_, hshape, ?_⟩
  clear hshape h
  induction ps with
  | nil => rfl
  | cons p ps ih =>
    obtain ⟨⟨hfits, hapart⟩, hps⟩ := List.forall_mem_cons.mp hps
    rw [List.filterMap_cons, Reader.method?_eq hfits hapart, List.map_cons, List.filter_cons]
    cases p.tree.counts ambient with
    | false => exact ih hps
    | true =>
      rw [if_pos rfl, if_pos rfl, List.map_cons, List.map_cons, ← ih hps, Reader.methodAt,
        Reader.nameOf_eq hfits, Reader.textOf_eq hfits]

theorem IsClassOf.apart {ambient : Bool} {members : List Tree} (h : IsClassOf d t u ambient members)
    {m : Tree} (hm : m ∈ members) : m.Apart .abstractSignature .body := by
  obtain ⟨ps, rfl, hps, -⟩ := h.exists_placed
  obtain ⟨p, hp, rfl⟩ := List.mem_map.mp hm
  exact (hps p hp).2

/-! ## Measures -/

theorem totalBranches_eq {ms : List Method} {ts : List Tree}
    (h : ms.map (fun m ↦ (m.name, m.text, m.branches)) =
      ts.map fun m ↦ (m.name?, m.ownText, (m.bodyBranches : Int))) :
    Method.totalBranches ms = Tree.total Tree.bodyBranches ts := by
  induction ts generalizing ms with
  | nil =>
    rw [List.map_nil, List.map_eq_nil_iff] at h
    rw [h]
    rfl
  | cons t ts ih =>
    obtain ⟨m, ms, rfl, hm, hms⟩ := List.map_eq_cons_iff.mp h
    have hbranches : m.branches = t.bodyBranches := congrArg (fun x ↦ x.2.2) hm
    rw [Method.totalBranches, Tree.total, ih hms, hbranches, Int.natCast_add]

theorem IsClassOf.measure_methods {ambient : Bool} {members : List Tree}
    (h : IsClassOf d t u ambient members) :
    u.measure.methods = members.countP (Tree.counts ambient) := by
  obtain ⟨ms, hshape, hms⟩ := h.map_methods
  have hlength := congrArg List.length hms
  rw [List.length_map, List.length_map, ← List.countP_eq_length_filter] at hlength
  simpa [CodeUnit.measure, hshape] using hlength

theorem IsClassOf.measure_complexity {ambient : Bool} {members : List Tree}
    (h : IsClassOf d t u ambient members) :
    u.measure.complexity =
      1 + (Tree.total Tree.bodyBranches (members.filter (Tree.counts ambient)) : Int) := by
  obtain ⟨ms, hshape, hms⟩ := h.map_methods
  simp [CodeUnit.measure, hshape, totalBranches_eq hms]

end Documents

end CodeHealth.Source
