import CodeHealth.Proofs.Report.Json.Atoms
import Mathlib.Data.List.Forall2

/-!
# What was written reads back

The text of a value is cut into its tokens whatever the indentation, and these are read as the
value.  Both are inductions on values: the first goes on with any text that cannot prolong a number,
the second with any tokens inside any arrays and objects still open.
-/

namespace CodeHealth.Report.Json

/-! ## Tokens of a text -/

/-- White space begins no token. -/
theorem not_token_of_isSpace {c : Char} (hc : isSpace c = true) :
    mark? c = none ∧ c.isDigit = false ∧ c ≠ '-' := by
  simp only [isSpace, Bool.or_eq_true, beq_iff_eq] at hc
  rcases hc with ((rfl | rfl) | rfl) | rfl <;> decide

theorem tokens?_space {c : Char} (hc : isSpace c = true) (t : Text) :
    tokens? (c :: t) = tokens? t := by
  rw [tokens?, if_pos hc]

theorem tokens?_newLine (indent : Nat) (t : Text) :
    tokens? (newLine indent ++ t) = tokens? t := by
  rw [newLine, List.cons_append, tokens?_space rfl]
  induction indent with
  | zero => rfl
  | succ k ih => rw [List.replicate_succ, List.cons_append, tokens?_space rfl, ih]

theorem tokens?_mark {c : Char} {m : Token} (hc : mark? c = some m) (t : Text) :
    tokens? (c :: t) = (tokens? t).map (m :: ·) := by
  have hspace : isSpace c ≠ true := by
    intro hspace
    cases hc.symm.trans (not_token_of_isSpace hspace).1
  have hquote : c ≠ '"' := by
    rintro rfl
    cases hc
  rw [tokens?, if_neg hspace, if_neg hquote, hc]

theorem tokens?_jsonString (s t : Text) :
    tokens? (jsonString s ++ t) = (tokens? t).map (.string s :: ·) := by
  have hread : readUnits (s.flatMap jsonChar ++ ['"'] ++ t) = some (s.flatMap units, t) := by
    rw [List.append_assoc]
    exact readUnits_flatMap s t
  rw [jsonString, List.cons_append, List.cons_append, tokens?, if_neg (by decide), if_pos rfl]
  split
  · next hnone => cases hnone.symm.trans hread
  · next ns left hsome =>
    cases hsome.symm.trans hread
    rw [joinUnits_flatMap, Option.bind_some]

theorem tokens?_toString (n : Int) {t : Text} (h : NoDigit t) :
    tokens? ((toString n).toList ++ t) = (tokens? t).map (.number n :: ·) := by
  obtain ⟨c, cs, hcs⟩ := List.exists_cons_of_ne_nil (toString_ne_nil n)
  have hc := isDigit_or_eq_of_mem_toString (n := n) (hcs ▸ List.mem_cons_self)
  have hspace : isSpace c ≠ true := by
    intro hspace
    obtain ⟨-, hdigit, hminus⟩ := not_token_of_isSpace hspace
    exact hc.elim (fun h ↦ Bool.false_ne_true (hdigit.symm.trans h)) hminus
  have hquote : c ≠ '"' := by
    rintro rfl
    exact absurd hc (by decide)
  have hmark : mark? c = none := by
    fun_cases mark? c with
    | case1 | case2 | case3 | case4 | case5 | case6 => exact absurd hc (by decide)
    | case7 => rfl
  have hread := readInt?_toString n h
  rw [hcs, List.cons_append] at hread ⊢
  rw [tokens?, if_neg hspace, if_neg hquote, hmark]
  simp only
  split
  · next hnone => cases hnone.symm.trans hread
  · next hsome => cases hsome.symm.trans hread; rfl

/-! ## Tokens of a value -/

/-- Parts between two tokens, with commas between them. -/
def enclosed (first last : Token) (parts : List (List Token)) : List Token :=
  first :: [Token.comma].intercalate parts ++ [last]

mutual

def tokens : Json → List Token
  | .number n => [.number n]
  | .string t => [.string t]
  | .array items => enclosed .openArray .closeArray (itemTokens items)
  | .object fields => enclosed .openObject .closeObject (fieldTokens fields)

def itemTokens : List Json → List (List Token)
  | [] => []
  | v :: rest => v.tokens :: itemTokens rest

def fieldTokens : List (Text × Json) → List (List Token)
  | [] => []
  | (k, v) :: rest => (.string k :: .colon :: v.tokens) :: fieldTokens rest

end

/-- A text is cut into the tokens `ts`, whatever follows, as long as it does not prolong a number. -/
def CutsInto (t : Text) (ts : List Token) : Prop :=
  ∀ rest, NoDigit rest → tokens? (t ++ rest) = (tokens? rest).map (ts ++ ·)

theorem noDigit_cons {c : Char} (hc : c.isDigit = false) (rest : Text) : NoDigit (c :: rest) := by
  rintro d ⟨⟩
  exact hc

theorem tokens?_intercalate {indent : Nat} {items : List Text} {parts : List (List Token)}
    (h : List.Forall₂ CutsInto items parts) (hne : items ≠ []) {rest : Text} (hrest : NoDigit rest) :
    tokens? ((',' :: newLine indent).intercalate items ++ rest) =
      (tokens? rest).map ([Token.comma].intercalate parts ++ ·) := by
  induction h with
  | nil => exact absurd rfl hne
  | @cons t ts items parts ht h ih =>
    cases h with
    | nil =>
      rw [List.intercalate_singleton, List.intercalate_singleton]
      exact ht rest hrest
    | @cons t' ts' items parts ht' h =>
      rw [List.intercalate_cons_cons, List.append_assoc, List.append_assoc, List.cons_append,
        ht _ (noDigit_cons rfl _), tokens?_mark rfl, tokens?_newLine, ih (List.cons_ne_nil _ _),
        List.intercalate_cons_cons]
      simp only [Option.map_map, Function.comp_def, List.append_assoc, List.cons_append,
        List.nil_append]

theorem cutsInto_bracketed {first last : Char} {m m' : Token} (hfirst : mark? first = some m)
    (hlast : mark? last = some m') (indent : Nat) {items : List Text} {parts : List (List Token)}
    (h : List.Forall₂ CutsInto items parts) :
    CutsInto (bracketed first last indent items) (enclosed m m' parts) := by
  intro rest hrest
  by_cases hne : items = []
  · subst hne
    cases h
    show tokens? (first :: last :: rest) = _
    rw [tokens?_mark hfirst, tokens?_mark hlast, Option.map_map]
    rfl
  · have htail : NoDigit (newLine indent ++ (last :: rest)) := noDigit_cons rfl _
    rw [bracketed, if_neg (by simpa using hne)]
    simp only [List.cons_append, List.append_assoc, List.nil_append]
    rw [tokens?_mark hfirst, tokens?_newLine, tokens?_intercalate h hne htail, tokens?_newLine,
      tokens?_mark hlast, enclosed]
    simp only [Option.map_map, Function.comp_def, List.cons_append, List.append_assoc,
      List.nil_append]

mutual

/-- The text of a value is cut into its tokens. -/
theorem cutsInto_render (indent : Nat) : ∀ v : Json, CutsInto (v.render indent) v.tokens
  | .number n => fun rest hrest ↦ by
    rw [render, tokens, tokens?_toString n hrest]
    rfl
  | .string t => fun rest _ ↦ by
    rw [render, tokens, tokens?_jsonString]
    rfl
  | .array items => by
    rw [render, tokens]
    exact cutsInto_bracketed rfl rfl indent (cutsInto_renderItems (indent + 2) items)
  | .object fields => by
    rw [render, tokens]
    exact cutsInto_bracketed rfl rfl indent (cutsInto_renderFields (indent + 2) fields)

theorem cutsInto_renderItems (indent : Nat) :
    ∀ items : List Json, List.Forall₂ CutsInto (renderItems indent items) (itemTokens items)
  | [] => by
    rw [renderItems, itemTokens]
    exact .nil
  | v :: rest => by
    rw [renderItems, itemTokens]
    exact .cons (cutsInto_render indent v) (cutsInto_renderItems indent rest)

theorem cutsInto_renderFields (indent : Nat) :
    ∀ fields : List (Text × Json),
      List.Forall₂ CutsInto (renderFields indent fields) (fieldTokens fields)
  | [] => by
    rw [renderFields, fieldTokens]
    exact .nil
  | (k, v) :: rest => by
    rw [renderFields, fieldTokens]
    refine .cons (fun left hleft ↦ ?_) (cutsInto_renderFields indent rest)
    rw [List.append_assoc, List.append_assoc, tokens?_jsonString, List.cons_append,
      tokens?_mark rfl, List.singleton_append, tokens?_space rfl, cutsInto_render indent v left hleft]
    simp only [Option.map_map, Function.comp_def, List.cons_append]

end

/-! ## Tokens are read as the value -/

/-- A value does not begin like the end of an array. -/
theorem tokens_append_ne (v : Json) (ts us : List Token) : v.tokens ++ ts ≠ .closeArray :: us := by
  cases v with
  | number | string | array | object => simp [tokens, enclosed]

theorem enclosed_cons_append (first last : Token) (part : List Token) (parts : List (List Token))
    (ts : List Token) :
    enclosed first last (part :: parts) ++ ts =
      first :: (part ++ (parts.flatMap (Token.comma :: ·) ++ last :: ts)) := by
  have hcommas : [Token.comma].intercalate (part :: parts) =
      part ++ parts.flatMap (Token.comma :: ·) := by
    induction parts generalizing part with
    | nil => rw [List.intercalate_singleton, List.flatMap_nil, List.append_nil]
    | cons part' parts ih =>
      rw [List.intercalate_cons_cons, ih, List.flatMap_cons, List.append_assoc]
      rfl
  rw [enclosed, hcommas]
  simp only [List.cons_append, List.append_assoc, List.nil_append]

mutual

/-- The tokens of a value are read as this value, inside whatever is open. -/
theorem readValue_tokens (stack : List Open) (ts : List Token) :
    ∀ v : Json, readValue stack (v.tokens ++ ts) = readOn stack v ts
  | .number n => by rw [tokens, List.singleton_append, readValue]
  | .string t => by rw [tokens, List.singleton_append, readValue]
  | .array [] => by
    rw [tokens, itemTokens]
    rfl
  | .array (v :: items) => by
    rw [tokens, itemTokens, enclosed_cons_append, readValue.eq_4 _ _ fun _ ↦ tokens_append_ne v _ _,
      readValue_tokens _ _ v, readOn_itemTokens [] stack ts v items]
    rfl
  | .object [] => by
    rw [tokens, fieldTokens]
    rfl
  | .object ((k, v) :: fields) => by
    rw [tokens, fieldTokens, enclosed_cons_append, List.cons_append, List.cons_append, readValue,
      readValue_tokens _ _ v, readOn_fieldTokens [] k stack ts v fields]
    rfl

theorem readOn_itemTokens (done : List Json) (stack : List Open) (ts : List Token) (v : Json) :
    ∀ items : List Json,
      readOn (.array done :: stack) v
          ((itemTokens items).flatMap (Token.comma :: ·) ++ .closeArray :: ts) =
        readOn stack (.array (done.reverse ++ v :: items)) ts
  | [] => by
    rw [itemTokens, List.flatMap_nil, List.nil_append, readOn, List.reverse_cons]
  | w :: items => by
    rw [itemTokens, List.flatMap_cons, List.cons_append, List.cons_append, List.append_assoc, readOn,
      readValue_tokens _ _ w, readOn_itemTokens (v :: done) stack ts w items, List.reverse_cons,
      List.append_assoc, List.singleton_append]

theorem readOn_fieldTokens (done : List (Text × Json)) (k : Text) (stack : List Open)
    (ts : List Token) (v : Json) :
    ∀ fields : List (Text × Json),
      readOn (.object done k :: stack) v
          ((fieldTokens fields).flatMap (Token.comma :: ·) ++ .closeObject :: ts) =
        readOn stack (.object (done.reverse ++ (k, v) :: fields)) ts
  | [] => by
    rw [fieldTokens, List.flatMap_nil, List.nil_append, readOn, List.reverse_cons]
  | (k', w) :: fields => by
    rw [fieldTokens, List.flatMap_cons]
    simp only [List.cons_append, List.append_assoc]
    rw [readOn, readValue_tokens _ _ w, readOn_fieldTokens ((k, v) :: done) k' stack ts w fields,
      List.reverse_cons, List.append_assoc, List.singleton_append]

end

theorem tokens?_of_isSpace {blanks : Text} (h : ∀ c ∈ blanks, isSpace c = true) :
    tokens? blanks = some [] := by
  induction blanks with
  | nil => rw [tokens?]
  | cons c blanks ih =>
    obtain ⟨hc, h⟩ := List.forall_mem_cons.mp h
    rw [tokens?_space hc, ih h]

/-- The text of a value reads back as this value, with white space behind it or without. -/
theorem read?_render_append (indent : Nat) (v : Json) {blanks : Text}
    (h : ∀ c ∈ blanks, isSpace c = true) : read? (v.render indent ++ blanks) = some v := by
  have hdigit : NoDigit blanks := fun c hc ↦
    (not_token_of_isSpace (h c (List.mem_of_head? hc))).2.1
  rw [read?, cutsInto_render indent v blanks hdigit, tokens?_of_isSpace h, Option.map_some,
    Option.bind_some, readValue_tokens, readOn]

end CodeHealth.Report.Json
