import CodeHealth.Proofs.Source.Members

/-!
# Accessors and constructors

Accessors and constructors do not count as methods, unless they are abstract.  So a class keeps its
complexity whichever of them are added to it or taken from it, and its number of methods changes by
the abstract ones among them.
-/

namespace CodeHealth.Source

namespace Tree

/-- A tree without the gap before it. -/
def bare : Tree → Tree
  | .token _ x => .token [] x
  | .node k [] => .node k []
  | .node k (t :: ts) => .node k (t.bare :: ts)

@[simp] theorem kind?_bare (t : Tree) : t.bare.kind? = t.kind? := by
  unfold bare
  split <;> rfl

@[simp] theorem isKind_bare (k : Kind) (t : Tree) : t.bare.isKind k = t.isKind k := by
  rw [isKind, kind?_bare, isKind]

/-- Only the first child of a tree has anything to do with the gap before it. -/
theorem children_bare (t : Tree) :
    t.bare.children = [] ∧ t.children = [] ∨
      ∃ u us, t.bare.children = u.bare :: us ∧ t.children = u :: us := by
  rcases t with ⟨gap, x⟩ | ⟨k, _ | ⟨u, us⟩⟩
  · exact .inl ⟨rfl, rfl⟩
  · exact .inl ⟨rfl, rfl⟩
  · exact .inr ⟨u, us, rfl, rfl⟩

theorem ncard_branchesIn_bare (t : Tree) : t.bare.branchesIn.ncard = t.branchesIn.ncard := by
  induction t using Tree.induction with
  | step t ih =>
    rw [ncard_branchesIn, ncard_branchesIn, isBranch, isBranch, kind?_bare]
    rcases t.children_bare with ⟨hbare, hchildren⟩ | ⟨u, us, hbare, hchildren⟩
    · rw [hbare, hchildren]
    · rw [hbare, hchildren, total, total, ih u (hchildren ▸ List.mem_cons_self)]

theorem branchCount_bare (t : Tree) : t.bare.branchCount = t.branchCount := by
  rw [branchCount_eq, branchCount_eq, ncard_branchesBelow, ncard_branchesBelow]
  rcases t.children_bare with ⟨hbare, hchildren⟩ | ⟨u, us, hbare, hchildren⟩
  · rw [hbare, hchildren]
  · rw [hbare, hchildren, total, total, ncard_branchesIn_bare]

theorem bodyBranches_bare (t : Tree) : t.bare.bodyBranches = t.bodyBranches := by
  rw [bodyBranches, bodyBranches]
  rcases t.children_bare with ⟨hbare, hchildren⟩ | ⟨u, us, hbare, hchildren⟩
  · rw [hbare, hchildren]
  · rw [hbare, hchildren, List.find?_cons, List.find?_cons, isKind_bare]
    cases u.isKind .body with
    | false => rfl
    | true => exact u.branchCount_bare

/-! ## What the special members add -/

/-- An accessor or constructor that is abstract. -/
def isAbstractSpecial (t : Tree) : Bool :=
  t.isKind .abstractSignature && t.isSpecial

/-- Whether a member would count if it were neither accessor nor constructor. -/
def countsByKind (ambient : Bool) (t : Tree) : Bool :=
  t.isMethodLike ambient || t.isKind .abstractSignature

theorem countsByKind_bare (ambient : Bool) (t : Tree) :
    t.bare.countsByKind ambient = t.countsByKind ambient := by
  simp [countsByKind, isMethodLike]

theorem counts_eq (ambient : Bool) (t : Tree) :
    t.counts ambient = if t.isSpecial then t.isKind .abstractSignature else t.countsByKind ambient := by
  rw [counts, countsByKind]
  cases t.isSpecial <;> simp

theorem countP_counts (ambient : Bool) (ts : List Tree) :
    ts.countP (counts ambient) =
      ((ts.filter (!·.isSpecial)).map bare).countP (countsByKind ambient) +
        ts.countP isAbstractSpecial := by
  induction ts with
  | nil => rfl
  | cons t ts ih =>
    rw [List.countP_cons, List.countP_cons, List.filter_cons, ih, counts_eq, isAbstractSpecial]
    cases t.isSpecial with
    | true => simp [Nat.add_assoc]
    | false => simp [List.countP_cons, countsByKind_bare, Nat.add_right_comm]

/-- Special members add nothing, since those that count have no body. -/
theorem total_bodyBranches (ambient : Bool) {ts : List Tree}
    (h : ∀ t ∈ ts, t.Apart .abstractSignature .body) :
    total bodyBranches (ts.filter (counts ambient)) =
      total bodyBranches
        (((ts.filter (!·.isSpecial)).map bare).filter (countsByKind ambient)) := by
  induction ts with
  | nil => rfl
  | cons t ts ih =>
    obtain ⟨ht, hts⟩ := List.forall_mem_cons.mp h
    rw [List.filter_cons, List.filter_cons, counts_eq]
    cases t.isSpecial with
    | true =>
      cases habstract : t.isKind .abstractSignature with
      | true => simp [total, ht.bodyBranches_eq_zero habstract, ih hts]
      | false => simpa using ih hts
    | false =>
      cases hkind : t.countsByKind ambient with
      | true => simp [countsByKind_bare, hkind, total, bodyBranches_bare, ih hts]
      | false => simp [countsByKind_bare, hkind, ih hts]

end Tree

/-- The methods of a class are its members that count, and an accessor or a constructor counts only
if it is abstract.  If another class has the same members, but for accessors, constructors and the
gaps before members, then it has the same complexity, and the numbers of methods differ as the
numbers of abstract accessors and constructors do. -/
theorem accessors_count_only_abstract (l : Language) (t : Text) (u : CodeUnit) :
    ((∃ ambient members, IsClassOf l.dialect t u ambient members) ↔
      u ∈ units l.dialect t ∧ u.isFunction = false) ∧
    ∀ ambient members, IsClassOf l.dialect t u ambient members →
      u.shape.methods.map (fun m ↦ (m.name, m.text, m.branches)) =
        (members.filter (Tree.counts ambient)).map
          (fun m ↦ (m.name?, m.ownText, (m.bodyBranches : Int))) ∧
      (∀ m ∈ members, m.isSpecial = true →
        (m.counts ambient = true ↔ m.isKind .abstractSignature = true)) ∧
      ∀ (l' : Language) (t' : Text) (u' : CodeUnit) (members' : List Tree),
        IsClassOf l'.dialect t' u' ambient members' →
        (members.filter (!·.isSpecial)).map Tree.bare =
          (members'.filter (!·.isSpecial)).map Tree.bare →
        u.measure.complexity = u'.measure.complexity ∧
        u.measure.methods + members'.countP Tree.isAbstractSpecial =
          u'.measure.methods + members.countP Tree.isAbstractSpecial := by
  refine ⟨exists_isClassOf_iff, fun ambient members h ↦ ⟨?_, fun m _ hspecial ↦ ?_,
    fun l' t' u' members' h' hsame ↦ ⟨?_, ?_⟩⟩⟩
  · obtain ⟨ms, hshape, hms⟩ := h.map_methods
    rwa [hshape]
  · rw [Tree.counts_eq, if_pos hspecial]
  · rw [h.measure_complexity, h'.measure_complexity, Tree.total_bodyBranches ambient fun m ↦ h.apart,
      Tree.total_bodyBranches ambient fun m ↦ h'.apart, hsame]
  · rw [h.measure_methods, h'.measure_methods, Tree.countP_counts, Tree.countP_counts, hsame]
    omega

/-! ## Three documents -/

namespace Tree

mutual

/-- Decides whether two trees are equal. -/
def decEq : (t u : Tree) → Decidable (t = u)
  | .token gap x, .token gap' x' => decidable_of_iff (gap = gap' ∧ x = x') (by rw [token.injEq])
  | .node k ts, .node k' us =>
    match decEqAll ts us with
    | isTrue hts => decidable_of_iff (k = k') (by simp [hts])
    | isFalse hts => isFalse fun h ↦ hts (node.inj h).2
  | .token .., .node .. => isFalse nofun
  | .node .., .token .. => isFalse nofun

def decEqAll : (ts us : List Tree) → Decidable (ts = us)
  | [], [] => isTrue rfl
  | t :: ts, u :: us =>
    match decEq t u, decEqAll ts us with
    | isTrue ht, isTrue hts => isTrue (by rw [ht, hts])
    | isFalse ht, _ => isFalse fun h ↦ ht (List.cons.inj h).1
    | _, isFalse hts => isFalse fun h ↦ hts (List.cons.inj h).2
  | [], _ :: _ => isFalse nofun
  | _ :: _, [] => isFalse nofun

end

instance : DecidableEq Tree := decEq

end Tree

/-- A class with a constructor that has a branch, a getter and a method. -/
def furnishedSource : Text :=
  "class A \x7b constructor() \x7b if (a) \x7b\x7d \x7d get x() \x7b\x7d f() \x7b\x7d \x7d".toList

/-- The same class with the method alone. -/
def plainSource : Text :=
  "class A \x7b\n  f() \x7b\x7d\n\x7d".toList

/-- The two classes have the same complexity and the same number of methods. -/
theorem accessors_count_only_abstract_furnished :
    ∃ u members u' members', IsClassOf Language.typescript.dialect furnishedSource u false members ∧
      IsClassOf Language.typescript.dialect plainSource u' false members' ∧
      members.countP Tree.isSpecial = 2 ∧ members'.countP Tree.isSpecial = 0 ∧
      u.measure.complexity = u'.measure.complexity ∧ u.measure.methods = u'.measure.methods := by
  have hread : ∃ c ∈ classes Language.typescript.dialect furnishedSource,
      ∃ c' ∈ classes Language.typescript.dialect plainSource,
        c.2.1 = false ∧ c'.2.1 = false ∧
        c.2.2.countP Tree.isSpecial = 2 ∧ c'.2.2.countP Tree.isSpecial = 0 ∧
        c.2.2.countP Tree.isAbstractSpecial = 0 ∧ c'.2.2.countP Tree.isAbstractSpecial = 0 ∧
        (c.2.2.filter (!·.isSpecial)).map Tree.bare =
          (c'.2.2.filter (!·.isSpecial)).map Tree.bare := by
    decide +kernel
  obtain ⟨⟨u, _, members⟩, h, ⟨u', _, members'⟩, h', rfl, rfl, hspecial, hspecial', habstract,
    habstract', hsame⟩ := hread
  obtain ⟨-, -, hadd⟩ :=
    (accessors_count_only_abstract .typescript furnishedSource u).2 false members h
  obtain ⟨hcomplexity, hmethods⟩ := hadd .typescript plainSource u' members' h' hsame
  rw [habstract, habstract'] at hmethods
  exact ⟨u, members, u', members', h, h', hspecial, hspecial', hcomplexity, hmethods⟩

/-- A class whose only member is an abstract getter. -/
def abstractSource : Text :=
  "abstract class A \x7b abstract get x(): number; \x7d".toList

/-- The getter is an entry of the methods of its class, and without it there would be none. -/
theorem abstract_getter_counts :
    ∃ u members, IsClassOf Language.typescript.dialect abstractSource u false members ∧
      (members.filter Tree.isAccessor).map Tree.ownText = ["abstract get x(): number".toList] ∧
      u.shape.methods.map Method.text = ["abstract get x(): number".toList] ∧
      u.measure.methods = 1 := by
  have hread : ∃ c ∈ classes Language.typescript.dialect abstractSource,
      c.2.1 = false ∧
      (c.2.2.filter Tree.isAccessor).map Tree.ownText = ["abstract get x(): number".toList] ∧
      c.1.shape.methods.map Method.text = ["abstract get x(): number".toList] ∧
      c.1.measure.methods = 1 := by
    decide +kernel
  obtain ⟨⟨u, _, members⟩, h, rfl, hgetter, htext, hmethods⟩ := hread
  exact ⟨u, members, h, hgetter, htext, hmethods⟩

end CodeHealth.Source
