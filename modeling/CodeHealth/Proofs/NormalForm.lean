import CodeHealth.NormalForm
import CodeHealth.Proofs.Text.Regex
import Mathlib.Data.List.Basic
import Mathlib.Data.List.TakeWhile

/-!
# Tokens and normal forms

A text splits into tokens in exactly one way, if runs of word characters and of white space are
taken as long as they are.  The two passes that make a normal form write these tokens, and trimming
drops white space at the ends.  So the normal form of a text splits into the same tokens as the
trimmed text, and two texts have the same normal form exactly if they have the same tokens.
-/

namespace CodeHealth.NormalForm

/-! ## Runs -/

/-- Longest runs of one class of characters; other characters stand alone. -/
inductive Run
  | word (t : Text)
  | blank (t : Text)
  | symbol (c : Char)
  deriving DecidableEq, Repr

/-- Puts a character before the runs of the text behind it. -/
def push (c : Char) (runs : List Run) : List Run :=
  if Text.isWordChar c then
    match runs with
    | .word t :: rest => .word (c :: t) :: rest
    | _ => .word [c] :: runs
  else if Text.isBlank c then
    match runs with
    | .blank t :: rest => .blank (c :: t) :: rest
    | _ => .blank [c] :: runs
  else .symbol c :: runs

def runs (t : Text) : List Run :=
  t.foldr push []

/-- The classes of characters that make runs. -/
inductive Class
  | word | blank

namespace Class

def has : Class → Char → Bool
  | .word => Text.isWordChar
  | .blank => Text.isBlank

/-- The run of a class with the characters given. -/
def run : Class → Text → Run
  | .word => .word
  | .blank => .blank

end Class

theorem push_run {k : Class} {c : Char} (hc : k.has c = true) (t : Text) (rs : List Run) :
    push c (k.run t :: rs) = k.run (c :: t) :: rs := by
  unfold push
  cases k with
  | word =>
    have hword : Text.isWordChar c = true := hc
    simp only [hword, if_true, Class.run]
  | blank =>
    have hblank : Text.isBlank c = true := hc
    have hword : Text.isWordChar c = false := Text.isWordChar_eq_false_of_isBlank hblank
    simp only [hword, hblank, Bool.false_eq_true, if_false, if_true, Class.run]

/-- A character of a class begins a run of it, unless one of the class comes first already. -/
theorem push_of_head?_ne {k : Class} {c : Char} (hc : k.has c = true) {rs : List Run}
    (hrs : ∀ t, rs.head? ≠ some (k.run t)) : push c rs = k.run [c] :: rs := by
  unfold push
  cases k with
  | word =>
    have hword : Text.isWordChar c = true := hc
    rw [if_pos hword]
    split
    · next t _ => exact absurd rfl (hrs t)
    · rfl
  | blank =>
    have hblank : Text.isBlank c = true := hc
    have hword : Text.isWordChar c = false := Text.isWordChar_eq_false_of_isBlank hblank
    rw [if_neg (Bool.eq_false_iff.mp hword), if_pos hblank]
    split
    · next t _ => exact absurd rfl (hrs t)
    · rfl

theorem push_symbol {c : Char} (hword : Text.isWordChar c = false)
    (hblank : Text.isBlank c = false) (rs : List Run) : push c rs = .symbol c :: rs := by
  unfold push
  rw [if_neg (Bool.eq_false_iff.mp hword), if_neg (Bool.eq_false_iff.mp hblank)]

/-! ## Splitting -/

/-- What a normal form keeps of a run: neither the spelling of identifiers nor that of white space,
but all characters of numbers and symbols. -/
inductive Token
  | identifier
  | number (t : Text)
  | blank
  | symbol (c : Char)
  deriving DecidableEq, Repr

/-- A run of characters that the text behind it does not carry on. -/
structure IsRun (p : Char → Bool) (run rest : Text) : Prop where
  ne_nil : run ≠ []
  forall_mem : ∀ c ∈ run, p c = true
  ends : ∀ c ∈ rest.head?, p c = false

/-- The text splits into the tokens. -/
inductive Splits : Text → List Token → Prop
  | nil : Splits [] []
  | identifier {w rest : Text} {ts : List Token} (hrun : IsRun Text.isWordChar w rest)
      (hstart : ∀ c ∈ w.head?, Text.isWordStart c = true) (hrest : Splits rest ts) :
      Splits (w ++ rest) (.identifier :: ts)
  | number {w rest : Text} {ts : List Token} (hrun : IsRun Text.isWordChar w rest)
      (hstart : ∀ c ∈ w.head?, c.isDigit = true) (hrest : Splits rest ts) :
      Splits (w ++ rest) (.number w :: ts)
  | blank {w rest : Text} {ts : List Token} (hrun : IsRun Text.isBlank w rest)
      (hrest : Splits rest ts) : Splits (w ++ rest) (.blank :: ts)
  | symbol {c : Char} {rest : Text} {ts : List Token} (hword : Text.isWordChar c = false)
      (hblank : Text.isBlank c = false) (hrest : Splits rest ts) :
      Splits (c :: rest) (.symbol c :: ts)

theorem IsRun.exists_eq_cons {p : Char → Bool} {w rest : Text} (h : IsRun p w rest) :
    ∃ c w', w = c :: w' ∧ p c = true := by
  obtain ⟨c, w', rfl⟩ := List.exists_cons_of_ne_nil h.ne_nil
  exact ⟨c, w', rfl, h.forall_mem c List.mem_cons_self⟩

theorem isRun_takeWhile {p : Char → Bool} {c : Char} (hc : p c = true) (t : Text) :
    IsRun p ((c :: t).takeWhile p) ((c :: t).dropWhile p) where
  ne_nil := by simp [hc]
  forall_mem d hd := List.mem_takeWhile_imp hd
  ends d hd := Text.eq_false_of_mem_head?_dropWhile hd

theorem exists_splits (t : Text) : ∃ ts, Splits t ts := by
  induction hn : t.length using Nat.strongRecOn generalizing t with
  | ind n ih =>
    cases t with
    | nil => exact ⟨[], .nil⟩
    | cons c t =>
      -- A first run is cut off as `takeWhile` does, and the rest is shorter.
      have hshorter {p : Char → Bool} (hc : p c = true) :
          ((c :: t).dropWhile p).length < n := by
        rw [← hn, List.dropWhile_cons_of_pos hc]
        exact Nat.lt_succ_of_le (List.length_dropWhile_le p t)
      by_cases hword : Text.isWordChar c = true
      · obtain ⟨ts, hts⟩ := ih _ (hshorter hword) _ rfl
        have hrun := isRun_takeWhile hword t
        have hhead : ((c :: t).takeWhile Text.isWordChar).head? = some c := by simp [hword]
        rw [← List.takeWhile_append_dropWhile (p := Text.isWordChar) (l := c :: t)]
        rcases Text.isWordChar_iff.mp hword with hstart | hstart
        · refine ⟨_, .identifier hrun (fun d hd ↦ ?_) hts⟩
          rwa [Option.some.inj (hhead.symm.trans hd)] at hstart
        · refine ⟨_, .number hrun (fun d hd ↦ ?_) hts⟩
          rwa [Option.some.inj (hhead.symm.trans hd)] at hstart
      · by_cases hblank : Text.isBlank c = true
        · obtain ⟨ts, hts⟩ := ih _ (hshorter hblank) _ rfl
          rw [← List.takeWhile_append_dropWhile (p := Text.isBlank) (l := c :: t)]
          exact ⟨_, .blank (isRun_takeWhile hblank t) hts⟩
        · obtain ⟨ts, hts⟩ := ih _ (hn ▸ Nat.lt_succ_self _) t rfl
          exact ⟨_, .symbol (Bool.eq_false_iff.mpr hword) (Bool.eq_false_iff.mpr hblank) hts⟩

/-! ## The tokens of a text -/

def Run.token : Run → Token
  | .word t => if t.head?.any Text.isWordStart then .identifier else .number t
  | .blank _ => .blank
  | .symbol c => .symbol c

def tokens (t : Text) : List Token :=
  (runs t).map Run.token

/-- The first run is of a class only if the first character is. -/
theorem exists_mem_head?_of_head?_runs {k : Class} {t w : Text}
    (h : (runs t).head? = some (k.run w)) : ∃ c ∈ t.head?, k.has c = true := by
  cases t with
  | nil => simp [runs] at h
  | cons c t =>
    refine ⟨c, rfl, ?_⟩
    change (push c (runs t)).head? = _ at h
    unfold push at h
    cases k with
    | word =>
      by_contra hc
      rw [if_neg (c := Text.isWordChar c = true) hc] at h
      split at h
      · split at h <;> simp [Class.run] at h
      · simp [Class.run] at h
    | blank =>
      by_contra hc
      rw [if_neg (c := Text.isBlank c = true) hc] at h
      split at h
      · split at h <;> simp [Class.run] at h
      · simp [Class.run] at h

theorem runs_append {k : Class} {w rest : Text} (h : IsRun k.has w rest) :
    runs (w ++ rest) = k.run w :: runs rest := by
  obtain ⟨hne, hall, hends⟩ := h
  induction w with
  | nil => exact absurd rfl hne
  | cons c w ih =>
    have hc : k.has c = true := hall c List.mem_cons_self
    change push c (runs (w ++ rest)) = _
    by_cases hw : w = []
    · subst hw
      refine push_of_head?_ne hc fun t ht ↦ ?_
      obtain ⟨d, hd, hhas⟩ := exists_mem_head?_of_head?_runs ht
      exact absurd hhas (ne_true_of_eq_false (hends d hd))
    · rw [ih hw fun d hd ↦ hall d (List.mem_cons_of_mem c hd), push_run hc]

theorem Splits.tokens_eq {t : Text} {ts : List Token} (h : Splits t ts) : tokens t = ts := by
  induction h with
  | nil => rfl
  | identifier hrun hstart hrest ih =>
    obtain ⟨c, w', rfl, -⟩ := hrun.exists_eq_cons
    rw [tokens, runs_append (k := .word) hrun, List.map_cons, ← tokens, ih]
    simp [Class.run, Run.token, hstart c rfl]
  | number hrun hstart hrest ih =>
    obtain ⟨c, w', rfl, -⟩ := hrun.exists_eq_cons
    rw [tokens, runs_append (k := .word) hrun, List.map_cons, ← tokens, ih]
    simp [Class.run, Run.token, Text.isWordStart_eq_false_of_isDigit (hstart c rfl)]
  | blank hrun hrest ih =>
    rw [tokens, runs_append (k := .blank) hrun, List.map_cons, ← tokens, ih]
    rfl
  | @symbol c rest ts hword hblank hrest ih =>
    change (push c (runs rest)).map Run.token = _
    rw [push_symbol hword hblank, List.map_cons, ← tokens, ih]
    rfl

theorem splits_iff {t : Text} {ts : List Token} : Splits t ts ↔ tokens t = ts := by
  refine ⟨Splits.tokens_eq, ?_⟩
  rintro rfl
  obtain ⟨ts, hts⟩ := exists_splits t
  rwa [hts.tokens_eq]

/-! ## Writing tokens -/

def Token.form : Token → Text
  | .identifier => ['i', 'd']
  | .number t => t
  | .blank => [' ']
  | .symbol c => [c]

/-- The text that tokens are written as. -/
def write (ts : List Token) : Text :=
  ts.flatMap Token.form

/-- If no run of a class stands first in a text, none does where its tokens are written. -/
theorem Splits.head?_write {k : Class} {t : Text} {ts : List Token} (h : Splits t ts)
    (hhead : ∀ c ∈ t.head?, k.has c = false) : ∀ c ∈ (write ts).head?, k.has c = false := by
  cases h with
  | nil => exact hhead
  | identifier hrun hstart hrest =>
    obtain ⟨c, w', rfl, hc⟩ := hrun.exists_eq_cons
    cases k with
    | word => exact absurd hc (ne_true_of_eq_false (hhead c rfl))
    | blank =>
      rintro d ⟨⟩
      decide
  | number hrun hstart hrest =>
    obtain ⟨c, w', rfl, -⟩ := hrun.exists_eq_cons
    exact hhead
  | blank hrun hrest =>
    obtain ⟨c, w', rfl, hc⟩ := hrun.exists_eq_cons
    cases k with
    | word =>
      rintro d ⟨⟩
      decide
    | blank => exact absurd hc (ne_true_of_eq_false (hhead c rfl))
  | symbol hword hblank hrest => exact hhead

/-- What tokens are written as splits into them again. -/
theorem Splits.write {t : Text} {ts : List Token} (h : Splits t ts) : Splits (write ts) ts := by
  induction h with
  | nil => exact .nil
  | identifier hrun hstart hrest ih =>
    refine Splits.identifier (w := ['i', 'd'])
      ⟨List.cons_ne_nil _ _, List.all_eq_true.mp rfl, ?_⟩ ?_ ih
    · exact hrest.head?_write (k := .word) hrun.ends
    · rintro c ⟨⟩
      rfl
  | number hrun hstart hrest ih =>
    refine Splits.number ⟨hrun.ne_nil, hrun.forall_mem, ?_⟩ hstart ih
    exact hrest.head?_write (k := .word) hrun.ends
  | blank hrun hrest ih =>
    refine Splits.blank (w := [' ']) ⟨List.cons_ne_nil _ _, List.all_eq_true.mp rfl, ?_⟩ ih
    exact hrest.head?_write (k := .blank) hrun.ends
  | symbol hword hblank hrest ih => exact .symbol hword hblank ih

/-! ## The passes -/

theorem IsRun.isBlank_eq_false {w rest : Text} (h : IsRun Text.isWordChar w rest) {c : Char}
    (hc : c ∈ w) : Text.isBlank c = false :=
  Text.isBlank_eq_false_of_isWordChar (h.forall_mem c hc)

section Passes

variable {b : Option Char} {c : Char} {w rest : Text}

theorem starts_identifier (h : identifier.Starts b (c :: rest)) :
    Text.isWordStart c = true ∧ ∀ d ∈ b, Text.isWordChar d = false := by
  simp only [identifier, Regex.starts_inOrder_cons, Regex.reads_wordBoundary, Regex.reads_one] at h
  obtain ⟨-, -, hsplit, ⟨rfl, hboundary⟩, -, after, rfl, ⟨d, rfl, hd⟩, -⟩ := h
  obtain ⟨rfl, rfl⟩ := List.cons.inj hsplit
  have hword : Text.isWordChar c = true := Text.isWordChar_iff.mpr (.inl hd)
  exact ⟨hd, (Regex.atWordBoundary_of_head? rfl hword).mp hboundary⟩

theorem head?_ends_identifier (hrun : IsRun Text.isWordChar w rest)
    (hstart : ∀ c ∈ w.head?, Text.isWordStart c = true)
    (hb : ∀ d ∈ b, Text.isWordChar d = false) :
    (identifier.ends ⟨b, w ++ rest⟩).head? = some ⟨w.getLast?.or b, rest⟩ := by
  obtain ⟨c, w, rfl, hc⟩ := hrun.exists_eq_cons
  have hw : ∀ d ∈ w, Text.isWordChar d = true :=
    fun d hd ↦ hrun.forall_mem d (List.mem_cons_of_mem c hd)
  -- behind the run stands the end of a word
  obtain ⟨d, hlast, hd⟩ : ∃ d, w.getLast?.or (some c) = some d ∧ Text.isWordChar d = true := by
    cases hw' : w.getLast? with
    | none => exact ⟨c, rfl, hc⟩
    | some d => exact ⟨d, rfl, hw d (List.mem_of_getLast? hw')⟩
  have hstop := (Regex.atWordBoundary_of_before hd).mpr hrun.ends
  have hbegin := (Regex.atWordBoundary_of_head? (t := c :: w ++ rest) rfl hc).mpr hb
  rw [Regex.getLast?_cons_or]
  refine Regex.head?_ends_seq (m := ⟨b, c :: w ++ rest⟩) ?_
    (Regex.head?_ends_seq (m := ⟨some c, w ++ rest⟩) ?_
      (Regex.head?_ends_seq (Regex.head?_manyEnds hw hrun.ends)
        (Regex.head?_ends_seq (m := ⟨w.getLast?.or (some c), rest⟩) ?_ rfl)))
  · rw [Regex.ends, if_pos hbegin, List.head?_cons]
  · simp [Regex.ends, hstart c rfl]
  · rw [Regex.ends, hlast, if_pos hstop, List.head?_cons]

theorem starts_blanks (h : blanks.Starts b (c :: rest)) : Text.isBlank c = true := by
  obtain ⟨w, after, hsplit, hreads⟩ := h
  obtain ⟨hne, hw⟩ := Regex.reads_plus.mp hreads
  obtain ⟨d, w, rfl⟩ := List.exists_cons_of_ne_nil hne
  obtain ⟨rfl, -⟩ := List.cons.inj hsplit
  exact hw c List.mem_cons_self

theorem head?_ends_blanks (hrun : IsRun Text.isBlank w rest) :
    (blanks.ends ⟨b, w ++ rest⟩).head? = some ⟨w.getLast?.or b, rest⟩ := by
  obtain ⟨c, w, rfl, hc⟩ := hrun.exists_eq_cons
  refine Regex.head?_ends_seq (m := ⟨some c, w ++ rest⟩) ?_ ?_
  · simp [Regex.ends, hc]
  · rw [Regex.getLast?_cons_or]
    exact Regex.head?_manyEnds (fun d hd ↦ hrun.forall_mem d (List.mem_cons_of_mem c hd)) hrun.ends

/-- The first pass behind `b`. -/
def hideNames (b : Option Char) (t : Text) : Text :=
  identifier.replaceFrom ['i', 'd'] 0 b t

/-- The second pass behind `b`. -/
def closeUp (b : Option Char) (t : Text) : Text :=
  blanks.replaceFrom [' '] 0 b t

theorem hideNames_nil : hideNames b [] = [] := by
  refine Regex.replaceFrom_nil ?_
  simp [identifier, Regex.starts_inOrder_cons]

theorem hideNames_identifier (hrun : IsRun Text.isWordChar w rest)
    (hstart : ∀ c ∈ w.head?, Text.isWordStart c = true) (hb : ∀ d ∈ b, Text.isWordChar d = false) :
    hideNames b (w ++ rest) = ['i', 'd'] ++ hideNames w.getLast? rest :=
  Regex.replaceFrom_append_of_head? hrun.ne_nil (head?_ends_identifier hrun hstart hb)

/-- What no identifier begins in is copied. -/
theorem hideNames_append (h : ∀ w₁ c w₂, w = w₁ ++ c :: w₂ → Text.isWordStart c = true →
    ∃ d ∈ w₁.getLast?, Text.isWordChar d = true) :
    hideNames b (w ++ rest) = w ++ hideNames (w.getLast?.or b) rest := by
  refine Regex.replaceFrom_append fun w₁ c w₂ hsplit hstarts ↦ ?_
  obtain ⟨hc, hb⟩ := starts_identifier hstarts
  obtain ⟨d, hd, hword⟩ := h w₁ c w₂ hsplit hc
  exact absurd hword (ne_true_of_eq_false (hb d (by rw [Option.mem_def.mp hd]; rfl)))

theorem hideNames_number (hrun : IsRun Text.isWordChar w rest)
    (hstart : ∀ c ∈ w.head?, c.isDigit = true) :
    hideNames b (w ++ rest) = w ++ hideNames (w.getLast?.or b) rest := by
  refine hideNames_append ?_
  rintro w₁ c w₂ rfl hc
  cases hlast : w₁.getLast? with
  | none =>
    obtain rfl := List.getLast?_eq_none_iff.mp hlast
    have hnot := Text.isWordStart_eq_false_of_isDigit (hstart c rfl)
    exact absurd hc (ne_true_of_eq_false hnot)
  | some d => exact ⟨d, rfl, hrun.forall_mem d (List.mem_append_left _ (List.mem_of_getLast? hlast))⟩

theorem hideNames_other (hne : w ≠ []) (hw : ∀ c ∈ w, Text.isWordChar c = false) :
    hideNames b (w ++ rest) = w ++ hideNames (some (w.getLast hne)) rest := by
  rw [hideNames_append fun w₁ c w₂ hsplit hc ↦ ?_, List.getLast?_eq_some_getLast hne,
    Option.some_or]
  have hnot := hw c (by rw [hsplit]; simp)
  exact absurd (Text.isWordChar_iff.mpr (.inl hc)) (ne_true_of_eq_false hnot)

theorem closeUp_nil : closeUp b [] = [] := by
  refine Regex.replaceFrom_nil ?_
  rintro ⟨s, after, hsplit, hreads⟩
  exact (Regex.reads_plus.mp hreads).1 (List.append_eq_nil_iff.mp hsplit.symm).1

theorem closeUp_blank (hrun : IsRun Text.isBlank w rest) :
    closeUp b (w ++ rest) = ' ' :: closeUp w.getLast? rest :=
  Regex.replaceFrom_append_of_head? hrun.ne_nil (head?_ends_blanks hrun)

theorem closeUp_append (hw : ∀ c ∈ w, Text.isBlank c = false) :
    closeUp b (w ++ rest) = w ++ closeUp (w.getLast?.or b) rest := by
  refine Regex.replaceFrom_append fun w₁ c w₂ hsplit hstarts ↦ ?_
  have hc := hw c (by rw [hsplit]; simp)
  exact absurd (starts_blanks hstarts) (ne_true_of_eq_false hc)

/-- The passes write the tokens.  A word must not carry on one that ends before it. -/
theorem Splits.closeUp_hideNames {t : Text} {ts : List Token} (h : Splits t ts)
    (hb : ∀ c ∈ t.head?, Text.isWordChar c = true → ∀ d ∈ b, Text.isWordChar d = false) :
    (∀ b', closeUp b' (hideNames b t) = NormalForm.write ts) ∧
    ((∀ c ∈ t.head?, Text.isBlank c = false) →
      ∀ c ∈ (hideNames b t).head?, Text.isBlank c = false) := by
  have hcut {w rest : Text} (hrun : IsRun Text.isWordChar w rest) {b : Option Char} :
      ∀ c ∈ rest.head?, Text.isWordChar c = true → ∀ d ∈ b, Text.isWordChar d = false :=
    fun c hc hword ↦ absurd hword (ne_true_of_eq_false (hrun.ends c hc))
  have hopen {d : Char} (hd : Text.isWordChar d = false) {rest : Text} :
      ∀ c ∈ rest.head?, Text.isWordChar c = true → ∀ d' ∈ some d, Text.isWordChar d' = false :=
    fun _ _ _ d' hd' ↦ Option.some.inj hd' ▸ hd
  induction h generalizing b with
  | nil =>
    rw [hideNames_nil]
    exact ⟨fun b' ↦ closeUp_nil, id⟩
  | @identifier w rest ts hrun hstart hrest ih =>
    have hfree : ∀ d ∈ b, Text.isWordChar d = false := by
      obtain ⟨c, w, rfl, hc⟩ := hrun.exists_eq_cons
      exact hb c rfl hc
    rw [hideNames_identifier hrun hstart hfree]
    refine ⟨fun b' ↦ ?_, fun _ ↦ by simp; decide⟩
    rw [closeUp_append (by decide), (ih (hcut hrun)).1]
    rfl
  | @number w rest ts hrun hstart hrest ih =>
    rw [hideNames_number hrun hstart]
    refine ⟨fun b' ↦ ?_, fun hhead ↦ ?_⟩
    · rw [closeUp_append fun c hc ↦ hrun.isBlank_eq_false hc, (ih (hcut hrun)).1]
      rfl
    · obtain ⟨c, w, rfl, -⟩ := hrun.exists_eq_cons
      exact hhead
  | @blank w rest ts hrun hrest ih =>
    have hw : ∀ c ∈ w, Text.isWordChar c = false :=
      fun c hc ↦ Text.isWordChar_eq_false_of_isBlank (hrun.forall_mem c hc)
    obtain ⟨hwrite, hhead⟩ := ih (hopen (hw _ (List.getLast_mem hrun.ne_nil)))
    rw [hideNames_other hrun.ne_nil hw]
    refine ⟨fun b' ↦ ?_, fun hfirst ↦ ?_⟩
    · rw [closeUp_blank ⟨hrun.ne_nil, hrun.forall_mem, hhead hrun.ends⟩, hwrite]
      rfl
    · obtain ⟨c, w, rfl, -⟩ := hrun.exists_eq_cons
      exact hfirst
  | @symbol c rest ts hword hblank hrest ih =>
    obtain ⟨hwrite, -⟩ := ih (hopen hword)
    have hpass : hideNames b ([c] ++ rest) = [c] ++ hideNames (some c) rest :=
      hideNames_other (List.cons_ne_nil c []) (by simpa using hword)
    rw [← List.singleton_append, hpass]
    refine ⟨fun b' ↦ ?_, id⟩
    rw [closeUp_append (by simpa using hblank), hwrite]
    rfl

end Passes

/-! ## Trimming -/

theorem Splits.eq_nil_of_write_eq_nil {t : Text} {ts : List Token} (h : Splits t ts)
    (hts : NormalForm.write ts = []) : t = [] := by
  cases h with
  | nil => rfl
  | number hrun hstart hrest =>
    exact absurd (List.append_eq_nil_iff.mp hts).1 hrun.ne_nil
  | identifier | blank | symbol => cases hts

/-- If white space does not stand last in a text, it does not where its tokens are written. -/
theorem Splits.getLast?_write {t : Text} {ts : List Token} (h : Splits t ts)
    (hlast : ∀ c ∈ t.getLast?, Text.isBlank c = false) :
    ∀ c ∈ (NormalForm.write ts).getLast?, Text.isBlank c = false := by
  induction h with
  | nil => exact hlast
  | identifier hrun hstart hrest ih =>
    intro c hc
    rcases Text.mem_getLast?_append_iff.mp hc with hc | ⟨-, hc⟩
    · exact ih (fun d hd ↦ hlast d (List.mem_getLast?_append_of_mem_getLast? hd)) c hc
    · obtain rfl := Option.some.inj hc
      decide
  | number hrun hstart hrest ih =>
    intro c hc
    rcases Text.mem_getLast?_append_iff.mp hc with hc | ⟨-, hc⟩
    · exact ih (fun d hd ↦ hlast d (List.mem_getLast?_append_of_mem_getLast? hd)) c hc
    · exact hrun.isBlank_eq_false (List.mem_of_mem_getLast? hc)
  | blank hrun hrest ih =>
    intro c hc
    rcases Text.mem_getLast?_append_iff.mp hc with hc | ⟨hnil, -⟩
    · exact ih (fun d hd ↦ hlast d (List.mem_getLast?_append_of_mem_getLast? hd)) c hc
    · -- The text would end with this run of white space.
      obtain rfl := hrest.eq_nil_of_write_eq_nil hnil
      obtain ⟨d, hd⟩ := Option.ne_none_iff_exists'.mp (mt List.getLast?_eq_none_iff.mp hrun.ne_nil)
      have hblank := hrun.forall_mem d (List.mem_of_mem_getLast? hd)
      exact absurd hblank (ne_true_of_eq_false (hlast d (by rwa [List.append_nil])))
  | @symbol c rest ts hword hblank hrest ih =>
    intro d hd
    rcases Text.mem_getLast?_append_iff (s := [c]).mp hd with hd | ⟨-, hd⟩
    · exact ih (fun e he ↦ hlast e (List.mem_getLast?_cons he)) d hd
    · obtain rfl := Option.some.inj hd
      exact hblank

/-- White space behind a text is one more token. -/
theorem Splits.append_blank {t w : Text} {ts : List Token} (h : Splits t ts)
    (hlast : ∀ c ∈ t.getLast?, Text.isBlank c = false) (hne : w ≠ [])
    (hw : ∀ c ∈ w, Text.isBlank c = true) : Splits (t ++ w) (ts ++ [.blank]) := by
  -- white space does not carry on a word
  have hword {v rest : Text} (hrun : IsRun Text.isWordChar v rest) :
      IsRun Text.isWordChar v (rest ++ w) := by
    refine ⟨hrun.ne_nil, hrun.forall_mem, fun c hc ↦ ?_⟩
    rw [List.head?_append, Option.mem_def, Option.or_eq_some_iff] at hc
    rcases hc with hc | ⟨-, hc⟩
    · exact hrun.ends c hc
    · exact Text.isWordChar_eq_false_of_isBlank (hw c (List.mem_of_mem_head? hc))
  induction h with
  | nil =>
    rw [List.nil_append, List.nil_append, ← List.append_nil w]
    exact .blank ⟨hne, hw, by simp⟩ .nil
  | identifier hrun hstart hrest ih =>
    rw [List.append_assoc]
    refine .identifier (hword hrun) hstart (ih fun c hc ↦ ?_)
    exact hlast c (List.mem_getLast?_append_of_mem_getLast? hc)
  | number hrun hstart hrest ih =>
    rw [List.append_assoc]
    refine .number (hword hrun) hstart (ih fun c hc ↦ ?_)
    exact hlast c (List.mem_getLast?_append_of_mem_getLast? hc)
  | @blank v rest ts hrun hrest ih =>
    -- the text does not end with this run, so something stands behind it
    have hrest : rest ≠ [] := by
      rintro rfl
      have hmem := List.getLast_mem hrun.ne_nil
      have hnot := hlast _ (by rw [List.append_nil]; exact List.getLast?_eq_some_getLast hrun.ne_nil)
      exact absurd (hrun.forall_mem _ hmem) (ne_true_of_eq_false hnot)
    obtain ⟨c, rest, rfl⟩ := List.exists_cons_of_ne_nil hrest
    rw [List.append_assoc]
    refine .blank ⟨hrun.ne_nil, hrun.forall_mem, hrun.ends⟩ (ih fun c hc ↦ ?_)
    exact hlast c (List.mem_getLast?_append_of_mem_getLast? hc)
  | symbol hword hblank hrest ih =>
    exact .symbol hword hblank (ih fun c hc ↦ hlast c (List.mem_getLast?_cons hc))

theorem trim_write_tokens_trimLeft (t : Text) :
    (write (tokens t)).trim = (write (tokens t.trimLeft)).trim := by
  obtain ⟨left, heq, hleft⟩ := t.exists_eq_trimLeft
  by_cases hnil : left = []
  · rw [hnil, List.nil_append] at heq
    rw [← heq]
  · have hrun : IsRun Text.isBlank left t.trimLeft :=
      ⟨hnil, hleft, fun c hc ↦ Text.eq_false_of_mem_head?_dropWhile hc⟩
    have hsplits := Splits.blank hrun (splits_iff.mpr rfl)
    rw [← heq] at hsplits
    rw [hsplits.tokens_eq]
    have hspace : Text.trim ([' '] ++ write (tokens t.trimLeft) ++ []) =
        (write (tokens t.trimLeft)).trim := Text.trim_append_append (by decide) (by decide)
    rwa [List.append_nil] at hspace

theorem trim_write_tokens_trimRight (t : Text) :
    (write (tokens t)).trim = (write (tokens t.trimRight)).trim := by
  obtain ⟨right, heq, hright⟩ := t.exists_eq_trimRight
  by_cases hnil : right = []
  · rw [hnil, List.append_nil] at heq
    rw [← heq]
  · have hlast : ∀ c ∈ t.trimRight.getLast?, Text.isBlank c = false := by
      intro c hc
      rw [Text.trimRight, List.getLast?_reverse] at hc
      exact Text.eq_false_of_mem_head?_dropWhile hc
    have hsplits := Splits.append_blank (splits_iff.mpr rfl) hlast hnil hright
    rw [← heq] at hsplits
    rw [hsplits.tokens_eq, write, List.flatMap_append]
    have hspace : Text.trim ([] ++ write (tokens t.trimRight) ++ [' ']) =
        (write (tokens t.trimRight)).trim := Text.trim_append_append (by decide) (by decide)
    exact hspace

/-- Trimming what the tokens of a text are written as drops the white space at its ends. -/
theorem trim_write_tokens (t : Text) : (write (tokens t)).trim = write (tokens t.trim) := by
  have hsplits : Splits t.trim (tokens t.trim) := splits_iff.mpr rfl
  rw [trim_write_tokens_trimLeft, trim_write_tokens_trimRight]
  apply Text.trim_eq_self
  · exact hsplits.head?_write (k := .blank) fun c hc ↦ Text.isBlank_eq_false_of_mem_head?_trim hc
  · exact hsplits.getLast?_write fun c hc ↦ Text.isBlank_eq_false_of_mem_getLast?_trim hc

theorem normalForm_eq_write (t : Text) : normalForm t = write (tokens t.trim) := by
  have hpasses := (Splits.closeUp_hideNames (b := none) (splits_iff.mpr rfl : Splits t (tokens t))
    fun _ _ _ d hd ↦ by cases hd).1 none
  rw [← trim_write_tokens, ← hpasses]
  rfl

/-- The normal form of a text has the tokens of the trimmed text. -/
theorem tokens_normalForm (t : Text) : tokens (normalForm t) = tokens t.trim := by
  rw [normalForm_eq_write]
  exact (Splits.write (splits_iff.mpr rfl)).tokens_eq

/-- Two texts have the same normal form exactly if, trimmed, they split into the same tokens. -/
theorem normalForm_eq_iff (a b : Text) :
    normalForm a = normalForm b ↔ ∃ ts, Splits a.trim ts ∧ Splits b.trim ts := by
  simp only [splits_iff]
  constructor
  · intro h
    refine ⟨tokens a.trim, rfl, ?_⟩
    calc tokens b.trim
      _ = tokens (normalForm b) := (tokens_normalForm b).symm
      _ = tokens (normalForm a) := by rw [h]
      _ = tokens a.trim := tokens_normalForm a
  · rintro ⟨ts, ha, hb⟩
    rw [normalForm_eq_write, normalForm_eq_write, ha, hb]

end CodeHealth.NormalForm
