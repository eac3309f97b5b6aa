import CodeHealth.Proofs.Source.Members

/-!
# Complexity

A branch adds one to the complexity of its class, however deep it lies, if it lies below the body of
a member that counts as a method.  Such bodies do not overlap, so no branch is counted twice and the
complexity is bounded by the branches in the class.
-/

namespace CodeHealth.Source

namespace Tree

/-- The addresses of the branches that lie below the body of a member. -/
def branchesInBody (m : Tree) : Set Address :=
  {a | a ∈ m.branchesIn ∧
    ∃ k rest, a = k :: rest ∧ rest ≠ [] ∧ m.children.findIdx? (isKind .body) = some k}

theorem find?_eq_of_findIdx? {p : Tree → Bool} {ts : List Tree} {k : Nat}
    (h : ts.findIdx? p = some k) : ∃ b, ts[k]? = some b ∧ ts.find? p = some b := by
  obtain ⟨hk, hp, hbefore⟩ := List.findIdx?_eq_some_iff_getElem.mp h
  refine ⟨ts[k], List.getElem?_eq_getElem hk, List.find?_eq_some_iff_getElem.mpr ⟨hp, k, hk, rfl, ?_⟩⟩
  intro j hj
  simpa using hbefore j hj

theorem branchesInBody_eq_image {m b : Tree} {k : Nat}
    (hk : m.children.findIdx? (isKind .body) = some k) (hb : m.children[k]? = some b) :
    m.branchesInBody = (k :: ·) '' b.branchesBelow := by
  ext x
  constructor
  · rintro ⟨⟨v, hv, hbranch⟩, k', rest, rfl, hne, hk'⟩
    obtain rfl : k = k' := Option.some.inj (hk.symm.trans hk')
    obtain ⟨c, hc, hv⟩ := at?_cons_eq_some_iff.mp hv
    obtain rfl : b = c := Option.some.inj (hb.symm.trans hc)
    exact ⟨rest, ⟨hne, v, hv, hbranch⟩, rfl⟩
  · rintro ⟨rest, ⟨hne, v, hv, hbranch⟩, rfl⟩
    exact ⟨⟨v, at?_cons_eq_some_iff.mpr ⟨b, hb, hv⟩, hbranch⟩, k, rest, rfl, hne, hk⟩

theorem ncard_branchesInBody (m : Tree) : m.branchesInBody.ncard = m.bodyBranches := by
  rw [bodyBranches]
  cases hk : m.children.findIdx? (isKind .body) with
  | none =>
    have hnone : m.branchesInBody = ∅ := by
      ext x
      simp [branchesInBody, hk]
    have hfind : m.children.find? (isKind .body) = none := by
      rw [List.find?_eq_none]
      simpa using List.findIdx?_eq_none_iff.mp hk
    rw [hnone, hfind, Set.ncard_empty]
    rfl
  | some k =>
    obtain ⟨b, hb, hfind⟩ := find?_eq_of_findIdx? hk
    have hinj : Function.Injective (k :: · : Address → Address) :=
      fun a a' haa ↦ (List.cons.inj haa).2
    rw [branchesInBody_eq_image hk hb, hfind, Set.ncard_image_of_injective _ hinj, ← branchCount_eq]
    rfl

/-- The addresses of the branches that a member adds to its class. -/
def branchesCounted (ambient : Bool) (m : Tree) : Set Address :=
  {a | m.counts ambient = true ∧ a ∈ m.branchesInBody}

theorem finite_branchesCounted (ambient : Bool) (m : Tree) : (m.branchesCounted ambient).Finite :=
  m.finite_branchesIn.subset fun _ ha ↦ ha.2.1

theorem ncard_branchesCounted (ambient : Bool) (m : Tree) :
    (m.branchesCounted ambient).ncard = if m.counts ambient then m.bodyBranches else 0 := by
  unfold branchesCounted
  cases m.counts ambient with
  | false => simp
  | true => simp [ncard_branchesInBody]

theorem total_filter (f : Tree → Nat) (p : Tree → Bool) (ts : List Tree) :
    total f (ts.filter p) = total (fun t ↦ if p t then f t else 0) ts := by
  induction ts with
  | nil => rfl
  | cons t ts ih =>
    rw [List.filter_cons, total, ← ih]
    cases p t with
    | false => exact (Nat.zero_add _).symm
    | true => rfl

end Tree

/-- The addresses, in a class with these members, of the branches that lie below the body of a
member that counts as a method. -/
def countedBranches (ambient : Bool) (members : List Tree) : Set Tree.Address :=
  {x | x ∈ (Tree.node .members members).branchesBelow ∧
    ∃ i k rest m, x = i :: k :: rest ∧ rest ≠ [] ∧ members[i]? = some m ∧
      m.counts ambient = true ∧ m.children.findIdx? (Tree.isKind .body) = some k}

theorem countedBranches_eq_among (ambient : Bool) (members : List Tree) :
    countedBranches ambient members = Tree.among (Tree.branchesCounted ambient) members := by
  ext x
  rw [countedBranches, Tree.branchesBelow_eq_among]
  constructor
  · rintro ⟨⟨i', m', a, hm', ha, rfl⟩, i, k, rest, m, hx, hne, hm, hcounts, hk⟩
    obtain ⟨rfl, rfl⟩ := List.cons.inj hx
    obtain rfl : m = m' := Option.some.inj (hm.symm.trans hm')
    exact ⟨i', m, k :: rest, hm, ⟨hcounts, ha, k, rest, rfl, hne, hk⟩, rfl⟩
  · rintro ⟨i, m, a, hm, ⟨hcounts, ha, k, rest, rfl, hne, hk⟩, rfl⟩
    exact ⟨⟨i, m, _, hm, ha, rfl⟩, i, k, rest, m, rfl, hne, hm, hcounts, hk⟩

theorem ncard_countedBranches (ambient : Bool) (members : List Tree) :
    (countedBranches ambient members).ncard =
      Tree.total Tree.bodyBranches (members.filter (Tree.counts ambient)) := by
  have hfinite : ∀ m ∈ members, (m.branchesCounted ambient).Finite := fun m _ ↦
    m.finite_branchesCounted ambient
  rw [countedBranches_eq_among, (Tree.ncard_among hfinite).2, Tree.total_filter]
  congr 1
  funext m
  exact m.ncard_branchesCounted ambient

/-- The loop over a stack counts each branch below a tree once.  So the complexity of a class is one
more than the number of branches below the bodies of its methods, and at most one more than the
number of branches below its own body. -/
theorem branches_counted_once :
    (∀ body : Tree, body.branchesBelow.Finite ∧ body.branchCount = body.branchesBelow.ncard) ∧
    ∀ (l : Language) (t : Text) (u : CodeUnit),
      ((∃ ambient members, IsClassOf l.dialect t u ambient members) ↔
        u ∈ units l.dialect t ∧ u.isFunction = false) ∧
      ∀ ambient members, IsClassOf l.dialect t u ambient members →
        (countedBranches ambient members).Finite ∧
        u.measure.complexity = 1 + ((countedBranches ambient members).ncard : Int) ∧
        u.measure.complexity ≤ 1 + ((Tree.node .members members).branchesBelow.ncard : Int) := by
  refine ⟨fun body ↦ ⟨body.finite_branchesBelow, body.branchCount_eq⟩, fun l t u ↦
    ⟨exists_isClassOf_iff, fun ambient members h ↦ ?_⟩⟩
  have hsubset : countedBranches ambient members ⊆ (Tree.node .members members).branchesBelow :=
    fun _ hx ↦ hx.1
  have hfinite := (Tree.node .members members).finite_branchesBelow
  have hcomplexity : u.measure.complexity = 1 + ((countedBranches ambient members).ncard : Int) := by
    rw [h.measure_complexity, ncard_countedBranches]
  refine ⟨hfinite.subset hsubset, hcomplexity, ?_⟩
  have hle := Set.ncard_le_ncard hsubset hfinite
  omega

/-- A class with a branch in its constructor, and two in a method, one in a function below the
other. -/
def branchingSource : Text :=
  "class A \x7b constructor() \x7b if (a) b \x7d ".toList ++
    "f() \x7b while (c) g(() => \x7b if (d) e \x7d) \x7d \x7d".toList

/-- Two of the three branches are counted. -/
theorem branches_counted_once_branching :
    ∃ u members, IsClassOf Language.javascript.dialect branchingSource u false members ∧
      u.measure.complexity = 3 ∧ (countedBranches false members).ncard = 2 ∧
      (3 : Int) ≤ 1 + ((Tree.node .members members).branchesBelow.ncard : Int) := by
  have hread : ∃ c ∈ classes Language.javascript.dialect branchingSource,
      c.2.1 = false ∧ c.1.measure.complexity = 3 := by
    decide +kernel
  obtain ⟨⟨u, _, members⟩, h, rfl, hthree⟩ := hread
  obtain ⟨-, hcomplexity, hle⟩ :=
    (branches_counted_once.2 .javascript branchingSource u).2 false members h
  rw [hthree] at hcomplexity hle
  exact ⟨u, members, h, hthree, by omega, hle⟩

end CodeHealth.Source
