import CodeHealth.Text.Basic

/-!
# Numbers in texts

Whole numbers and decimals as users write them: surrounding white space, a sign, digits of any
script, and single underscores between digits.
-/

namespace CodeHealth.Text

/-- The zeros of the decimal digits, each followed by its nine successors. -/
def decimalZeros : List Nat :=
  [0x30, 0x660, 0x6F0, 0x7C0, 0x966, 0x9E6, 0xA66, 0xAE6, 0xB66, 0xBE6, 0xC66, 0xCE6, 0xD66, 0xDE6,
   0xE50, 0xED0, 0xF20, 0x1040, 0x1090, 0x17E0, 0x1810, 0x1946, 0x19D0, 0x1A80, 0x1A90, 0x1B50,
   0x1BB0, 0x1C40, 0x1C50, 0xA620, 0xA8D0, 0xA900, 0xA9D0, 0xA9F0, 0xAA50, 0xABF0, 0xFF10, 0x104A0,
   0x10D30, 0x11066, 0x110F0, 0x11136, 0x111D0, 0x112F0, 0x11450, 0x114D0, 0x11650, 0x116C0,
   0x11730, 0x118E0, 0x11950, 0x11C50, 0x11D50, 0x11DA0, 0x11F50, 0x16A60, 0x16AC0, 0x16B50,
   0x1D7CE, 0x1D7D8, 0x1D7E2, 0x1D7EC, 0x1D7F6, 0x1E140, 0x1E2F0, 0x1E4F0, 0x1E950, 0x1FBF0]

/-- The value of a decimal digit of any script. -/
def digit? (c : Char) : Option Nat :=
  let n := c.toNat
  (decimalZeros.find? fun z => decide (z ≤ n) && decide (n ≤ z + 9)).map (n - ·)

/-- White space around a number, which does not include the information separators. -/
def isNumberBlank (c : Char) : Bool :=
  isBlank c && !(decide (0x1C ≤ c.toNat) && decide (c.toNat ≤ 0x1F))

def trimNumber (t : Text) : Text :=
  ((t.dropWhile isNumberBlank).reverse.dropWhile isNumberBlank).reverse

/-- Reads digits, with single underscores between them; gives the digits and the rest. An
underscore is only read behind a digit and before one. -/
def digitsFrom (afterDigit : Bool) : Text → List Nat × Text
  | [] => ([], [])
  | c :: rest =>
    match digit? c with
    | some d =>
      let (ds, left) := digitsFrom true rest
      (d :: ds, left)
    | none =>
      if afterDigit && c == '_' && (rest.head?.bind digit?).isSome then digitsFrom false rest
      else ([], c :: rest)

def digitRun (t : Text) : List Nat × Text :=
  digitsFrom false t

def ofDigits (ds : List Nat) : Nat :=
  ds.foldl (fun n d => 10 * n + d) 0

/-- The sign of a number and what follows it. -/
def splitSign : Text → Bool × Text
  | '-' :: rest => (true, rest)
  | '+' :: rest => (false, rest)
  | t => (false, t)

/-- A whole number has at most this many digits. -/
def maxDigits : Nat := 4300

/-- A whole number. -/
def int? (t : Text) : Option Int :=
  let (negative, body) := splitSign (trimNumber t)
  match digitRun body with
  | ([], _) => none
  | (ds, []) =>
    if ds.length > maxDigits then none
    else some (if negative then -(ofDigits ds : Int) else ofDigits ds)
  | _ => none

/-- A number in decimal notation, which may also be infinite or no number at all. -/
inductive Decimal
  | notANumber
  | infinite (negative : Bool)
  /-- `mantissa · 10 ^ exponent`. -/
  | finite (negative : Bool) (mantissa : Nat) (exponent : Int)
  deriving DecidableEq, Repr

/-- The exponent behind `e`, with its sign. -/
def exponent? (t : Text) : Option Int :=
  match t with
  | [] => some 0
  | e :: rest =>
    if e == 'e' || e == 'E' then
      let (negative, body) := splitSign rest
      match digitRun body with
      | ([], _) => none
      | (ds, []) => some (if negative then -(ofDigits ds : Int) else ofDigits ds)
      | _ => none
    else none

def unsignedDecimal? (negative : Bool) (t : Text) : Option Decimal :=
  let word := String.ofList (t.map Char.toLower)
  if word == "nan" then some .notANumber
  else if word == "inf" || word == "infinity" then some (.infinite negative)
  else
    let (whole, rest) := digitRun t
    let (fraction, rest) := match rest with
      | '.' :: more => digitRun more
      | _ => ([], rest)
    if whole.isEmpty && fraction.isEmpty then none
    else
      (exponent? rest).map fun e =>
        .finite negative (ofDigits (whole ++ fraction)) (e - fraction.length)

/-- A decimal number. -/
def decimal? (t : Text) : Option Decimal :=
  let (negative, body) := splitSign (trimNumber t)
  unsignedDecimal? negative body

end CodeHealth.Text
