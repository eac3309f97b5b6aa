import CodeHealth.Proofs.Source.Lexeme
import CodeHealth.Proofs.Source.Tree
import CodeHealth.Source.Peg

/-!
# What a parsing expression reads

Whatever the grammar, reading puts trees behind the ones that were read before, and takes their text
off the text that is left.  If every node of the grammar has something to hold, no part of these
trees is hollow.
-/

namespace CodeHealth.Source

open CodeHealth.Source.Tree

/-! ## Cursors -/

namespace Cursor

/-- From `c` to `d`, solid trees are read: they come behind those of `c`, their text is cut off what
`c` has left, and there is one at least if `some` says so. -/
def Advances (c d : Cursor) (some : Bool) : Prop :=
  ∃ ts, d.done = ts.reverse ++ c.done ∧ c.rest = textAll ts ++ d.rest ∧ (∀ t ∈ ts, t.Solid) ∧
    (some = true → ts ≠ [])

namespace Advances

variable {c d e : Cursor} {a b : Bool}

theorem refl (c : Cursor) : c.Advances c false :=
  ⟨[], rfl, rfl, fun _ ht ↦ absurd ht List.not_mem_nil, fun h ↦ Bool.noConfusion h⟩

theorem trans (hcd : c.Advances d a) (hde : d.Advances e b) : c.Advances e (a || b) := by
  obtain ⟨ts, hdone, hrest, hsolid, hne⟩ := hcd
  obtain ⟨us, hdone', hrest', hsolid', hne'⟩ := hde
  refine ⟨ts ++ us, ?_, ?_, ?_, ?_⟩
  · rw [hdone', hdone, List.reverse_append, List.append_assoc]
  · rw [hrest, hrest', textAll_append, List.append_assoc]
  · intro t ht
    exact (List.mem_append.mp ht).elim (hsolid t) (hsolid' t)
  · intro h hnil
    obtain ⟨rfl, rfl⟩ := List.append_eq_nil_iff.mp hnil
    rcases Bool.or_eq_true_iff.mp h with h | h
    · exact hne h rfl
    · exact hne' h rfl

theorem mono (h : c.Advances d b) (hab : a = true → b = true) : c.Advances d a := by
  obtain ⟨ts, hdone, hrest, hsolid, hne⟩ := h
  exact ⟨ts, hdone, hrest, hsolid, fun ha ↦ hne (hab ha)⟩

theorem forget (h : c.Advances d b) : c.Advances d false :=
  h.mono fun hfalse ↦ Bool.noConfusion hfalse

end Advances

variable {c d : Cursor}

theorem advances_advance {g n : Nat} (hg : g < c.rest.length) (hn : 0 < n) :
    c.Advances (c.advance g n) true := by
  have htoken : (c.rest.drop g).take n ≠ [] := by
    intro h
    rcases List.take_eq_nil_iff.mp h with h | h
    · omega
    · have := List.drop_eq_nil_iff.mp h
      omega
  refine ⟨[.token (c.rest.take g) ((c.rest.drop g).take n)], rfl, ?_, ?_, ?_⟩
  · simp only [textAll, text, advance]
    rw [List.append_nil, List.append_assoc, List.take_append_drop, List.take_append_drop]
  · intro t ht
    rw [List.mem_singleton.mp ht]
    exact .token htoken
  · exact fun _ ↦ List.cons_ne_nil _ _

theorem advances_readTight {l : Lexeme} (h : c.readTight l = some d) : c.Advances d true := by
  obtain ⟨n, hn, rfl⟩ := Option.map_eq_some_iff.mp h
  exact advances_advance (List.length_pos_iff.mpr (Lexeme.ne_nil_of_width hn))
    (Lexeme.width_pos hn)

theorem advances_readToken {l : Lexeme} (h : c.readToken l = some d) : c.Advances d true := by
  obtain ⟨n, hn, rfl⟩ := Option.map_eq_some_iff.mp h
  refine advances_advance ?_ (Lexeme.width_pos hn)
  have hne := Lexeme.ne_nil_of_width hn
  rw [Ne, List.drop_eq_nil_iff] at hne
  omega

theorem advances_readLineTail (h : c.readLineTail = some d) : c.Advances d true := by
  rw [readLineTail] at h
  split at h
  · next n hn =>
    cases h
    obtain ⟨hstart, hlength⟩ := lt_lineTailEnd hn
    exact advances_advance hlength (by omega)
  · cases h

theorem advances_wrap {inner : Cursor} (k : Kind) (h : Advances ⟨[], c.rest⟩ inner true) :
    c.Advances (c.wrap k inner) true := by
  obtain ⟨ts, hdone, hrest, hsolid, hne⟩ := h
  rw [List.append_nil] at hdone
  refine ⟨[.node k ts], ?_, ?_, ?_, fun _ ↦ List.cons_ne_nil _ _⟩
  · simp [wrap, hdone]
  · simpa [textAll, text, wrap] using hrest
  · intro t ht
    rw [List.mem_singleton.mp ht]
    exact .node (hne rfl) hsolid

end Cursor

theorem advances_repeatStep {step : Cursor → Option Cursor}
    (hstep : ∀ c d, step c = some d → c.Advances d false) (n : Nat) (c : Cursor) :
    c.Advances (repeatStep step n c) false := by
  induction n generalizing c with
  | zero => exact .refl c
  | succ n ih =>
    rw [repeatStep]
    split
    · exact .refl c
    · next d hd => exact (hstep c d hd).trans (ih d)

/-! ## Expressions -/

namespace Peg

variable {ρ : Type}

mutual

/-- Whether an expression reads something wherever it succeeds, if the rules that are `sure` do. -/
def consumes (sure : ρ → Bool) : Peg ρ → Bool
  | .token _ | .tight _ | .lineTail => true
  | .seq ps => anyConsumes sure ps
  | .choice ps => allConsume sure ps
  | .node _ p => p.consumes sure
  | .call r => sure r
  | .star _ | .opt _ | .ahead _ | .notAhead _ | .newLine | .sameLine | .atEnd => false

def anyConsumes (sure : ρ → Bool) : List (Peg ρ) → Bool
  | [] => false
  | p :: ps => p.consumes sure || anyConsumes sure ps

def allConsume (sure : ρ → Bool) : List (Peg ρ) → Bool
  | [] => true
  | p :: ps => p.consumes sure && allConsume sure ps

end

mutual

/-- Whether all nodes that an expression makes have something to hold. -/
def fillsNodes (sure : ρ → Bool) : Peg ρ → Bool
  | .seq ps | .choice ps => allFillNodes sure ps
  | .star p | .opt p => p.fillsNodes sure
  | .node _ p => p.consumes sure && p.fillsNodes sure
  | .token _ | .tight _ | .lineTail | .ahead _ | .notAhead _ | .newLine | .sameLine | .atEnd
  | .call _ => true

def allFillNodes (sure : ρ → Bool) : List (Peg ρ) → Bool
  | [] => true
  | p :: ps => p.fillsNodes sure && allFillNodes sure ps

end

variable {sure : ρ → Bool} {g : ρ → Peg ρ}

theorem allFillNodes_eq_true_iff {ps : List (Peg ρ)} :
    allFillNodes sure ps = true ↔ ∀ p ∈ ps, p.fillsNodes sure = true := by
  induction ps with
  | nil => simp [allFillNodes]
  | cons p ps ih => simp [allFillNodes, ih]

theorem allConsume_eq_true_iff {ps : List (Peg ρ)} :
    allConsume sure ps = true ↔ ∀ p ∈ ps, p.consumes sure = true := by
  induction ps with
  | nil => simp [allConsume]
  | cons p ps ih => simp [allConsume, ih]

/-- All nodes of the grammar have something to hold, and the rules that are `sure` read something. -/
structure Filled (sure : ρ → Bool) (g : ρ → Peg ρ) : Prop where
  consumes : ∀ r, sure r = true → (g r).consumes sure = true
  fillsNodes : ∀ r, (g r).fillsNodes sure = true

/-- A sequence reads what its parts read, one behind the other. -/
theorem advances_foldlM {step : Peg ρ → Cursor → Option Cursor} {ps : List (Peg ρ)}
    (hstep : ∀ p ∈ ps, ∀ c d, step p c = some d → c.Advances d (p.consumes sure)) {c d : Cursor}
    (h : ps.foldlM (fun c p ↦ step p c) c = some d) : c.Advances d (anyConsumes sure ps) := by
  induction ps generalizing c with
  | nil =>
    cases h
    exact .refl _
  | cons p ps ih =>
    rw [List.foldlM_cons] at h
    obtain ⟨e, he, h⟩ := Option.bind_eq_some_iff.mp h
    exact (hstep p List.mem_cons_self c e he).trans
      (ih (fun q hq ↦ hstep q (List.mem_cons_of_mem p hq)) h)

theorem Filled.advances_run (hg : Filled sure g) {depth : Nat} {p : Peg ρ} {c d : Cursor}
    (hp : p.fillsNodes sure = true) (h : run g depth p c = some d) :
    c.Advances d (p.consumes sure) := by
  induction depth generalizing p c d with
  | zero => cases h
  | succ depth ih =>
    cases p with
    | token l => exact Cursor.advances_readToken h
    | tight l => exact Cursor.advances_readTight h
    | lineTail => exact Cursor.advances_readLineTail h
    | seq ps =>
      refine advances_foldlM (fun q hq c d hd ↦ ?_) h
      exact ih (allFillNodes_eq_true_iff.mp hp q hq) hd
    | choice ps =>
      obtain ⟨q, hq, hd⟩ := List.exists_of_findSome?_eq_some h
      refine (ih (allFillNodes_eq_true_iff.mp hp q hq) hd).mono fun hall ↦ ?_
      exact allConsume_eq_true_iff.mp hall q hq
    | star q =>
      have hq : q.fillsNodes sure = true := hp
      cases h
      refine advances_repeatStep (fun c d hd ↦ ?_) depth c
      exact (ih hq hd).forget
    | opt q =>
      have hq : q.fillsNodes sure = true := hp
      cases h
      cases hrun : run g depth q c with
      | none => exact .refl c
      | some e => exact (ih hq hrun).forget
    | ahead q =>
      obtain ⟨e, -, rfl⟩ := Option.map_eq_some_iff.mp h
      exact .refl c
    | newLine | atEnd =>
      obtain ⟨-, h⟩ := Option.ite_none_right_eq_some.mp h
      cases h
      exact .refl c
    | notAhead _ | sameLine =>
      obtain ⟨-, h⟩ := Option.ite_none_left_eq_some.mp h
      cases h
      exact .refl c
    | node k q =>
      obtain ⟨hconsumes, hfills⟩ := Bool.and_eq_true_iff.mp hp
      obtain ⟨inner, hinner, rfl⟩ := Option.map_eq_some_iff.mp h
      refine (Cursor.advances_wrap k ?_).mono fun _ ↦ rfl
      exact (ih hfills hinner).mono fun _ ↦ hconsumes
    | call r => exact (ih (hg.fillsNodes r) h).mono (hg.consumes r)

/-- The tree of a whole text: solid trees side by side, and a last token with what is left. -/
theorem Filled.exists_read_eq (hg : Filled sure g) (start : ρ) (t : Text) :
    ∃ ts rest, read g start t = .node .program (ts ++ [.token rest []]) ∧
      (∀ u ∈ ts, u.Solid) ∧ t = textAll ts ++ rest := by
  have hrun : Cursor.Advances ⟨[], t⟩
      ((run g (400 * (t.length + 10)) (.call start) ⟨[], t⟩).getD ⟨[], t⟩) false := by
    cases h : run g (400 * (t.length + 10)) (.call start) ⟨[], t⟩ with
    | none => exact .refl _
    | some d => exact (hg.advances_run rfl h).forget
  obtain ⟨ts, hdone, hrest, hsolid, -⟩ := hrun
  refine ⟨ts, _, ?_, hsolid, hrest⟩
  rw [read, hdone, List.append_nil, List.reverse_cons, List.reverse_reverse]

end Peg

end CodeHealth.Source
