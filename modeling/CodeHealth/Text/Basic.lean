/-!
# Text

A text is the list of its code points, so an offset is a position in the list. This file holds the
character classes that the measures share, trimming, substrings, cutting and signed slices.
-/

namespace CodeHealth

/-- A text is the list of its code points. -/
abbrev Text := List Char

namespace Text

/-- A property of the characters of a text is decided along the text, not for each character that
there is. -/
instance decidableForallMem {p : Char → Prop} [DecidablePred p] (t : Text) :
    Decidable (∀ c ∈ t, p c) :=
  List.decidableBAll p t

/-- White space in the sense of Unicode, with the four information separators. -/
def isBlank (c : Char) : Bool :=
  let n := c.toNat
  (0x09 ≤ n && n ≤ 0x0D) || (0x1C ≤ n && n ≤ 0x20) || n == 0x85 || n == 0xA0 || n == 0x1680 ||
  (0x2000 ≤ n && n ≤ 0x200A) || n == 0x2028 || n == 0x2029 || n == 0x202F || n == 0x205F ||
  n == 0x3000

/-- White space within ASCII: tab, line feed, vertical tab, form feed, carriage return, space. -/
def isAsciiBlank (c : Char) : Bool :=
  let n := c.toNat
  (0x09 ≤ n && n ≤ 0x0D) || n == 0x20

/-- A letter of ASCII or an underscore. -/
def isWordStart (c : Char) : Bool :=
  c.isAlpha || c == '_'

/-- A letter or digit of ASCII or an underscore. -/
def isWordChar (c : Char) : Bool :=
  c.isAlphanum || c == '_'

def trimLeft (t : Text) : Text :=
  t.dropWhile isBlank

def trimRight (t : Text) : Text :=
  (t.reverse.dropWhile isBlank).reverse

def trim (t : Text) : Text :=
  (t.trimLeft).trimRight

/-- Whether `part` occurs in `t` as a contiguous run. -/
def contains (t part : Text) : Bool :=
  part.isPrefixOf t ||
    match t with
    | [] => false
    | _ :: rest => contains rest part

/-- The parts of a text between the occurrences of `sep`, empty ones included. -/
def cutAt (sep : Char) : Text → List Text
  | [] => [[]]
  | c :: rest =>
    if c = sep then [] :: cutAt sep rest
    else
      match cutAt sep rest with
      | [] => [[c]]
      | part :: more => (c :: part) :: more

/-- The hexadecimal digits of `n`, filled with zeros to at least `width`. -/
def hex (width n : Nat) : Text :=
  let ds := Nat.toDigits 16 n
  List.replicate (width - ds.length) '0' ++ ds

/-- The position a signed offset names in a sequence of length `n`: a negative offset counts from
the end, and both kinds are cut at the ends. -/
def clampOffset (n : Nat) (i : Int) : Nat :=
  if i < 0 then (i + n).toNat else min i.toNat n

/-- The part of `t` between two signed offsets, empty when they are out of order. -/
def slice (t : Text) (start stop : Int) : Text :=
  let a := clampOffset t.length start
  let b := clampOffset t.length stop
  (t.drop a).take (b - a)

end Text

end CodeHealth
