import CodeHealth.Proofs.Source.Tree
import CodeHealth.Source.Grammar

/-!
# Kinds that do not stand below each other

Whether trees of one kind can be children of another kind is seen from the grammar: it depends on
what the expressions in its nodes can read outside of nodes of their own.  Members that are abstract
have no body in this sense.
-/

namespace CodeHealth.Source

variable {K k : Kind}

namespace Tree

/-- At no depth of a tree does a node of kind `K` have a child of kind `k`. -/
inductive Apart (K k : Kind) : Tree → Prop
  | token {gap text : Text} : Apart K k (.token gap text)
  | node {k' : Kind} {ts : List Tree} (hall : ∀ t ∈ ts, Apart K k t)
      (hroot : k' = K → ∀ t ∈ ts, t.isKind k = false) : Apart K k (.node k' ts)

theorem Apart.of_mem_children {t u : Tree} (h : t.Apart K k) (hu : u ∈ t.children) :
    u.Apart K k := by
  cases h with
  | token => exact absurd hu List.not_mem_nil
  | node hall _ => exact hall u hu

theorem Apart.isKind_child {t u : Tree} (h : t.Apart K k) (hK : t.isKind K = true)
    (hu : u ∈ t.children) : u.isKind k = false := by
  cases h with
  | token => exact absurd hu List.not_mem_nil
  | node _ hroot => exact hroot (Option.some.inj (eq_of_beq hK)) u hu

end Tree

namespace Cursor

/-- From `c` to `d`, trees with the property `P` are read. -/
def Reads (P : Tree → Prop) (c d : Cursor) : Prop :=
  ∃ ts, d.done = ts ++ c.done ∧ ∀ t ∈ ts, P t

namespace Reads

variable {P Q : Tree → Prop} {c d e : Cursor}

theorem refl (P : Tree → Prop) (c : Cursor) : Reads P c c :=
  ⟨[], rfl, fun _ ht ↦ absurd ht List.not_mem_nil⟩

theorem single {t : Tree} {rest : Text} (ht : P t) : Reads P c ⟨t :: c.done, rest⟩ :=
  ⟨[t], rfl, fun _ hu ↦ List.mem_singleton.mp hu ▸ ht⟩

theorem trans (hcd : Reads P c d) (hde : Reads P d e) : Reads P c e := by
  obtain ⟨ts, hd, hts⟩ := hcd
  obtain ⟨us, he, hus⟩ := hde
  refine ⟨us ++ ts, by rw [he, hd, List.append_assoc], fun t ht ↦ ?_⟩
  exact (List.mem_append.mp ht).elim (hus t) (hts t)

theorem mono (h : Reads P c d) (hPQ : ∀ t, P t → Q t) : Reads Q c d := by
  obtain ⟨ts, hd, hts⟩ := h
  exact ⟨ts, hd, fun t ht ↦ hPQ t (hts t ht)⟩

theorem repeatStep {step : Cursor → Option Cursor}
    (hstep : ∀ c d, step c = some d → Reads P c d) (n : Nat) (c : Cursor) :
    Reads P c (repeatStep step n c) := by
  induction n generalizing c with
  | zero => exact refl P c
  | succ n ih =>
    rw [Source.repeatStep]
    split
    · exact refl P c
    · next d hd => exact (hstep c d hd).trans (ih d)

end Reads

end Cursor

namespace Peg

variable {ρ : Type} {g : ρ → Peg ρ}

mutual

/-- Whether an expression can read a tree of kind `k` outside of nodes, if no rule can. -/
def yields (k : Kind) : Peg ρ → Bool
  | .node k' _ => k' == k
  | .seq ps | .choice ps => anyYields k ps
  | .star p | .opt p => p.yields k
  | .token _ | .tight _ | .lineTail | .ahead _ | .notAhead _ | .newLine | .sameLine | .atEnd
  | .call _ => false

def anyYields (k : Kind) : List (Peg ρ) → Bool
  | [] => false
  | p :: ps => p.yields k || anyYields k ps

end

mutual

/-- Whether in all nodes of kind `K` that an expression makes, no tree of kind `k` is read outside of
nodes. -/
def separates (K k : Kind) : Peg ρ → Bool
  | .node k' p => (k' != K || !p.yields k) && p.separates K k
  | .seq ps | .choice ps => allSeparate K k ps
  | .star p | .opt p => p.separates K k
  | .token _ | .tight _ | .lineTail | .ahead _ | .notAhead _ | .newLine | .sameLine | .atEnd
  | .call _ => true

def allSeparate (K k : Kind) : List (Peg ρ) → Bool
  | [] => true
  | p :: ps => p.separates K k && allSeparate K k ps

end

theorem anyYields_eq_false_iff {ps : List (Peg ρ)} :
    anyYields k ps = false ↔ ∀ p ∈ ps, p.yields k = false := by
  induction ps with
  | nil => simp [anyYields]
  | cons p ps ih => simp [anyYields, ih]

theorem allSeparate_eq_true_iff {ps : List (Peg ρ)} :
    allSeparate K k ps = true ↔ ∀ p ∈ ps, p.separates K k = true := by
  induction ps with
  | nil => simp [allSeparate]
  | cons p ps ih => simp [allSeparate, ih]

/-- No rule of the grammar reads a tree of kind `k` outside of nodes, and nodes of kind `K` have none
directly below. -/
structure Separated (K k : Kind) (g : ρ → Peg ρ) : Prop where
  yields : ∀ r, (g r).yields k = false
  separates : ∀ r, (g r).separates K k = true

/-- What an expression reads keeps the two kinds apart, and is of kind `k` only if the expression
says so. -/
def Keeps (K k : Kind) (p : Peg ρ) (t : Tree) : Prop :=
  t.Apart K k ∧ (p.yields k = false → t.isKind k = false)

theorem keeps_token (p : Peg ρ) (gap text : Text) : p.Keeps K k (.token gap text) :=
  ⟨.token, fun _ ↦ rfl⟩

theorem Keeps.of_yields {p q : Peg ρ} {t : Tree} (h : q.Keeps K k t)
    (hpq : p.yields k = false → q.yields k = false) : p.Keeps K k t :=
  ⟨h.1, fun hp ↦ h.2 (hpq hp)⟩

theorem reads_foldlM {P : Tree → Prop} {step : Peg ρ → Cursor → Option Cursor} {ps : List (Peg ρ)}
    (hstep : ∀ p ∈ ps, ∀ c d, step p c = some d → c.Reads P d) {c d : Cursor}
    (h : ps.foldlM (fun c p ↦ step p c) c = some d) : c.Reads P d := by
  induction ps generalizing c with
  | nil =>
    cases h
    exact .refl P _
  | cons p ps ih =>
    rw [List.foldlM_cons] at h
    obtain ⟨e, he, h⟩ := Option.bind_eq_some_iff.mp h
    exact (hstep p List.mem_cons_self c e he).trans
      (ih (fun q hq ↦ hstep q (List.mem_cons_of_mem p hq)) h)

theorem Separated.reads_run (hg : Separated K k g) {depth : Nat} {p : Peg ρ} {c d : Cursor}
    (hp : p.separates K k = true) (h : run g depth p c = some d) : c.Reads (p.Keeps K k) d := by
  induction depth generalizing p c d with
  | zero => cases h
  | succ depth ih =>
    cases p with
    | token l | tight l =>
      obtain ⟨n, -, rfl⟩ := Option.map_eq_some_iff.mp h
      exact .single (keeps_token _ _ _)
    | lineTail =>
      rw [run, Cursor.readLineTail] at h
      split at h
      · cases h
        exact .single (keeps_token _ _ _)
      · cases h
    | seq ps =>
      refine reads_foldlM (fun q hq c d hd ↦ ?_) h
      refine (ih (allSeparate_eq_true_iff.mp hp q hq) hd).mono fun t ht ↦ ht.of_yields ?_
      exact fun hnone ↦ anyYields_eq_false_iff.mp hnone q hq
    | choice ps =>
      obtain ⟨q, hq, hd⟩ := List.exists_of_findSome?_eq_some h
      refine (ih (allSeparate_eq_true_iff.mp hp q hq) hd).mono fun t ht ↦ ht.of_yields ?_
      exact fun hnone ↦ anyYields_eq_false_iff.mp hnone q hq
    | star q =>
      have hq : q.separates K k = true := hp
      cases h
      exact .repeatStep (fun c d hd ↦ (ih hq hd).mono fun t ht ↦ ht.of_yields fun hnone ↦ hnone) _ _
    | opt q =>
      have hq : q.separates K k = true := hp
      cases h
      cases hrun : run g depth q c with
      | none => exact .refl _ c
      | some e => exact (ih hq hrun).mono fun t ht ↦ ht.of_yields fun hnone ↦ hnone
    | ahead q =>
      obtain ⟨e, -, rfl⟩ := Option.map_eq_some_iff.mp h
      exact .refl _ c
    | newLine | atEnd =>
      obtain ⟨-, h⟩ := Option.ite_none_right_eq_some.mp h
      cases h
      exact .refl _ c
    | notAhead _ | sameLine =>
      obtain ⟨-, h⟩ := Option.ite_none_left_eq_some.mp h
      cases h
      exact .refl _ c
    | node k' q =>
      obtain ⟨hroot, hq⟩ := Bool.and_eq_true_iff.mp hp
      obtain ⟨inner, hinner, rfl⟩ := Option.map_eq_some_iff.mp h
      obtain ⟨ts, hdone, hts⟩ := ih hq hinner
      rw [List.append_nil] at hdone
      refine .single ⟨.node (fun t ht ↦ ?_) fun hk' t ht ↦ ?_, fun hne ↦ ?_⟩
      · exact (hts t (hdone ▸ List.mem_reverse.mp ht)).1
      · refine (hts t (hdone ▸ List.mem_reverse.mp ht)).2 ?_
        simpa [hk'] using hroot
      · simpa [Peg.yields, Tree.isKind, Tree.kind?] using hne
    | call r => exact (ih (hg.separates r) h).mono fun t ht ↦ ht.of_yields fun _ ↦ hg.yields r

theorem Separated.apart_read (hg : Separated K k g) (start : ρ) (t : Text) {u : Tree}
    (hu : u ∈ (read g start t).children) : u.Apart K k := by
  have hrun : Cursor.Reads (Tree.Apart K k) ⟨[], t⟩
      ((run g (400 * (t.length + 10)) (.call start) ⟨[], t⟩).getD ⟨[], t⟩) := by
    cases h : run g (400 * (t.length + 10)) (.call start) ⟨[], t⟩ with
    | none => exact .refl _ _
    | some d => exact (hg.reads_run rfl h).mono fun u hu ↦ hu.1
  obtain ⟨ts, hdone, hts⟩ := hrun
  rw [read, hdone, List.append_nil, List.reverse_cons] at hu
  rcases List.mem_append.mp hu with hu | hu
  · exact hts u (List.mem_reverse.mp hu)
  · rw [List.mem_singleton.mp hu]
    exact .token

end Peg

/-- Abstract members never have a body. -/
theorem separated_grammar (d : Dialect) : Peg.Separated .abstractSignature .body (grammar d) := by
  obtain ⟨typed, markup⟩ := d
  constructor
  · intro r
    cases r with
    | assignment withIn resultType =>
      cases typed <;> cases markup <;> cases withIn <;> cases resultType <;> rfl
    | _ => cases typed <;> cases markup <;> rfl
  · intro r
    cases r with
    | assignment withIn resultType =>
      cases typed <;> cases markup <;> cases withIn <;> cases resultType <;> rfl
    | _ => cases typed <;> cases markup <;> rfl

end CodeHealth.Source
