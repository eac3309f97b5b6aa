import CodeHealth.Report.Json

/-!
# Reading JSON

The standard form of JSON, as far as `Json` has the values: numbers are whole, and there are no
literals.  A text is cut into tokens, between which white space may stand.  The characters of a
string stand for themselves or are escaped, and an escape by number gives a unit of UTF-16.  The
tokens are then read from left to right, with a stack of the arrays and objects still open.
-/

namespace CodeHealth.Report.Json

/-! ## Strings -/

/-- The value of a hexadecimal digit, in small or capital letters. -/
def hexDigit? (c : Char) : Option Nat :=
  if c.isDigit then some (c.toNat - '0'.toNat)
  else if 'a' ≤ c ∧ c ≤ 'f' then some (c.toNat - 'a'.toNat + 10)
  else if 'A' ≤ c ∧ c ≤ 'F' then some (c.toNat - 'A'.toNat + 10)
  else none

def ofHex? (digits : Text) : Option Nat :=
  digits.foldlM (fun n d ↦ (hexDigit? d).map (16 * n + ·)) 0

/-- What a letter stands for behind a backslash. -/
def escaped? : Char → Option Char
  | '"' => some '"'
  | '\\' => some '\\'
  | '/' => some '/'
  | 'b' => some '\x08'
  | 'f' => some '\x0c'
  | 'n' => some '\n'
  | 'r' => some '\r'
  | 't' => some '\t'
  | _ => none

/-- The code points of a string up to the closing quote, and what follows the quote.  Surrogates
that have been escaped are not joined yet. -/
def readUnits : Text → Option (List Nat × Text)
  | [] => none
  | '"' :: rest => some ([], rest)
  | '\\' :: 'u' :: a :: b :: c :: d :: rest =>
    (ofHex? [a, b, c, d]).bind fun n ↦ (readUnits rest).map (Prod.map (n :: ·) id)
  | '\\' :: c :: rest =>
    (escaped? c).bind fun e ↦ (readUnits rest).map (Prod.map (e.toNat :: ·) id)
  | c :: rest =>
    if c = '\\' ∨ c.toNat < 0x20 then none
    else (readUnits rest).map (Prod.map (c.toNat :: ·) id)

/-- A high and a low surrogate stand for one character beyond the first plane; neither of them
stands for anything without the other. -/
def joinUnits : List Nat → Option Text
  | [] => some []
  | n :: ns =>
    if 0xD800 ≤ n ∧ n < 0xDC00 then
      match ns with
      | m :: ns =>
        if 0xDC00 ≤ m ∧ m < 0xE000 then
          (joinUnits ns).map (Char.ofNat (0x10000 + 0x400 * (n - 0xD800) + (m - 0xDC00)) :: ·)
        else none
      | [] => none
    else if 0xDC00 ≤ n ∧ n < 0xE000 then none
    else (joinUnits ns).map (Char.ofNat n :: ·)

/-! ## Numbers -/

/-- A number without sign, and what follows it.  Only zero itself begins with a zero. -/
def readNat? (t : Text) : Option (Nat × Text) :=
  match t.takeWhile Char.isDigit with
  | [] => none
  | '0' :: _ :: _ => none
  | digits => some (Nat.ofDigitChars 10 digits 0, t.dropWhile Char.isDigit)

def readInt? : Text → Option (Int × Text)
  | '-' :: t => (readNat? t).map (Prod.map Int.negOfNat id)
  | t => (readNat? t).map (Prod.map Int.ofNat id)

/-! ## Tokens -/

inductive Token
  | openArray | closeArray | openObject | closeObject | comma | colon
  | string (t : Text)
  | number (n : Int)
  deriving DecidableEq, Repr

def mark? : Char → Option Token
  | '[' => some .openArray
  | ']' => some .closeArray
  | '\x7b' => some .openObject
  | '\x7d' => some .closeObject
  | ',' => some .comma
  | ':' => some .colon
  | _ => none

def isSpace (c : Char) : Bool :=
  c == ' ' || c == '\n' || c == '\r' || c == '\t'

section Length

variable {α β : Type} {t left : Text}

theorem length_lt_of_map {x : Option (α × Text)} {n : Nat} {b : β} {f : α → β}
    (hx : ∀ a left, x = some (a, left) → left.length < n)
    (h : x.map (Prod.map f id) = some (b, left)) : left.length < n := by
  obtain ⟨⟨a, left'⟩, hread, heq⟩ := Option.map_eq_some_iff.mp h
  cases heq
  exact hx a left' hread

theorem length_lt_of_readUnits {ns : List Nat} (h : readUnits t = some (ns, left)) :
    left.length < t.length := by
  fun_induction readUnits t generalizing ns left with
  | case1 => cases h
  | case2 rest =>
    cases h
    exact Nat.lt_succ_self _
  | case3 a b c d rest ih =>
    obtain ⟨n, -, h⟩ := Option.bind_eq_some_iff.mp h
    have hlt := length_lt_of_map (fun _ _ ↦ ih) h
    simp only [List.length_cons]
    omega
  | case4 c rest _ ih =>
    obtain ⟨e, -, h⟩ := Option.bind_eq_some_iff.mp h
    have hlt := length_lt_of_map (fun _ _ ↦ ih) h
    simp only [List.length_cons]
    omega
  | case5 => cases h
  | case6 c rest _ _ _ _ ih => exact Nat.lt_succ_of_lt (length_lt_of_map (fun _ _ ↦ ih) h)

theorem length_lt_of_readNat? {n : Nat} (h : readNat? t = some (n, left)) :
    left.length < t.length := by
  have hlength := congrArg List.length
    (List.takeWhile_append_dropWhile (p := Char.isDigit) (l := t))
  rw [List.length_append] at hlength
  rw [readNat?] at h
  split at h
  · cases h
  · cases h
  · next hne _ =>
    cases h
    have hpos := List.length_pos_iff.mpr hne
    omega

theorem length_lt_of_readInt? {n : Int} (h : readInt? t = some (n, left)) :
    left.length < t.length := by
  rw [readInt?.eq_def] at h
  split at h
  · exact Nat.lt_succ_of_lt (length_lt_of_map (fun _ _ ↦ length_lt_of_readNat?) h)
  · exact length_lt_of_map (fun _ _ ↦ length_lt_of_readNat?) h

end Length

/-- The tokens of a text, if it has no other parts. -/
def tokens? (t : Text) : Option (List Token) :=
  match t with
  | [] => some []
  | c :: rest =>
    if isSpace c then tokens? rest
    else if c = '"' then
      match _h : readUnits rest with
      | none => none
      | some (ns, left) => (joinUnits ns).bind fun s ↦ (tokens? left).map (.string s :: ·)
    else
      match mark? c with
      | some m => (tokens? rest).map (m :: ·)
      | none =>
        match _h : readInt? (c :: rest) with
        | none => none
        | some (n, left) => (tokens? left).map (.number n :: ·)
termination_by t.length
decreasing_by
  · exact Nat.lt_succ_self _
  · exact Nat.lt_succ_of_lt (length_lt_of_readUnits _h)
  · exact Nat.lt_succ_self _
  · exact length_lt_of_readInt? _h

/-! ## Values -/

/-- An array or an object that is still open: what is complete of it, the latest part first, and in
an object the name of the field whose value is to come. -/
inductive Open
  | array (items : List Json)
  | object (fields : List (Text × Json)) (key : Text)

mutual

/-- Reads the tokens from the beginning of a value on. -/
def readValue (stack : List Open) : List Token → Option Json
  | .string t :: ts => readOn stack (.string t) ts
  | .number n :: ts => readOn stack (.number n) ts
  | .openArray :: .closeArray :: ts => readOn stack (.array []) ts
  | .openArray :: ts => readValue (.array [] :: stack) ts
  | .openObject :: .closeObject :: ts => readOn stack (.object []) ts
  | .openObject :: .string k :: .colon :: ts => readValue (.object [] k :: stack) ts
  | _ => none

/-- Reads the tokens behind the value `v`. -/
def readOn : List Open → Json → List Token → Option Json
  | [], v, [] => some v
  | .array items :: stack, v, .comma :: ts => readValue (.array (v :: items) :: stack) ts
  | .array items :: stack, v, .closeArray :: ts => readOn stack (.array (v :: items).reverse) ts
  | .object fields k :: stack, v, .comma :: .string k' :: .colon :: ts =>
    readValue (.object ((k, v) :: fields) k' :: stack) ts
  | .object fields k :: stack, v, .closeObject :: ts =>
    readOn stack (.object ((k, v) :: fields).reverse) ts
  | _, _, _ => none

end

/-- The value of a text. -/
def read? (t : Text) : Option Json :=
  (tokens? t).bind (readValue [])

end CodeHealth.Report.Json
