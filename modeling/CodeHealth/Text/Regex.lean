import CodeHealth.Text.Basic

/-!
# Regular expressions

An expression is matched from a place in a text on. It can often end in several places; they are
listed in the order in which they are tried, so the first of them is the match. Repetition takes as
many characters as it can and gives them back one by one.
-/

namespace CodeHealth

/-- Words are made of letters, digits and underscores of ASCII, and a line starts behind a line
feed. -/
inductive Regex
  | empty
  | one (p : Char → Bool)
  | many (p : Char → Bool)
  | seq (r s : Regex)
  | alt (r s : Regex)
  | lineStart
  | wordBoundary
  | notAhead (r : Regex)

namespace Regex

def plus (p : Char → Bool) : Regex :=
  .seq (.one p) (.many p)

def opt (r : Regex) : Regex :=
  .alt r .empty

def inOrder (rs : List Regex) : Regex :=
  rs.foldr .seq .empty

/-- The characters of `s` themselves. -/
def text (s : String) : Regex :=
  inOrder (s.toList.map fun c => .one (· == c))

/-- `s` as a word of its own. -/
def word (s : String) : Regex :=
  inOrder [.wordBoundary, .text s, .wordBoundary]

/-- A place in a text: the character before it, if there is one, and what follows. -/
structure Cursor where
  before : Option Char
  rest : Text
  deriving DecidableEq, Repr

namespace Cursor

def atLineStart (c : Cursor) : Bool :=
  c.before.all (· == '\n')

/-- A word starts or stops here. -/
def atWordBoundary (c : Cursor) : Bool :=
  c.before.any Text.isWordChar != c.rest.head?.any Text.isWordChar

end Cursor

/-- Where a repetition can end, behind the most characters first. -/
def manyEnds (p : Char → Bool) (before : Option Char) : Text → List Cursor
  | [] => [⟨before, []⟩]
  | c :: rest =>
    if p c then manyEnds p (some c) rest ++ [⟨before, c :: rest⟩] else [⟨before, c :: rest⟩]

/-- Where a match that starts at a place can end, in the order of the attempts. -/
def ends : Regex → Cursor → List Cursor
  | .empty, c => [c]
  | .one p, c =>
    match c.rest with
    | [] => []
    | d :: rest => if p d then [⟨some d, rest⟩] else []
  | .many p, c => manyEnds p c.before c.rest
  | .seq r s, c => (r.ends c).flatMap s.ends
  | .alt r s, c => r.ends c ++ s.ends c
  | .lineStart, c => if c.atLineStart then [c] else []
  | .wordBoundary, c => if c.atWordBoundary then [c] else []
  | .notAhead r, c => if (r.ends c).isEmpty then [c] else []

/-- The places of a text that `before` precedes. -/
def places (before : Option Char) : Text → List Cursor
  | [] => [⟨before, []⟩]
  | c :: rest => ⟨before, c :: rest⟩ :: places (some c) rest

/-- Whether the expression matches anywhere in the text. -/
def isFoundIn (r : Regex) (t : Text) : Bool :=
  (places none t).any fun c => !(r.ends c).isEmpty

/-- Puts `new` in the place of each match, from left to right. The first `skip` characters belong to
a match before them. At a match of no characters the text goes on with the next one. -/
def replaceFrom (r : Regex) (new : Text) (skip : Nat) (before : Option Char) : Text → Text
  | [] => if (r.ends ⟨before, []⟩).isEmpty then [] else new
  | c :: rest =>
    match skip with
    | n + 1 => replaceFrom r new n (some c) rest
    | 0 =>
      match (r.ends ⟨before, c :: rest⟩).head? with
      | none => c :: replaceFrom r new 0 (some c) rest
      | some stop =>
        match (c :: rest).length - stop.rest.length with
        | 0 => new ++ c :: replaceFrom r new 0 (some c) rest
        | n + 1 => new ++ replaceFrom r new n (some c) rest

def replace (r : Regex) (new t : Text) : Text :=
  r.replaceFrom new 0 none t

end Regex

end CodeHealth
