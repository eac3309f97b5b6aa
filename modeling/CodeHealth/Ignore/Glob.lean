import CodeHealth.Text.Basic

/-!
# Globs

A glob is a list of pieces that are matched from left to right. Where a piece can take more or less
of the path, it takes as much as it can; the first way to match the whole glob counts, and it tells
whether the slash was taken that makes the match one of a directory.
-/

namespace CodeHealth.Ignore

/-- The characters of a bracket expression: single ones and ranges. -/
structure CharClass where
  negated : Bool
  ranges : List (Char × Char)
  deriving DecidableEq, Repr

def CharClass.holds (k : CharClass) (c : Char) : Bool :=
  k.negated != k.ranges.any fun (lo, hi) => decide (lo ≤ c) && decide (c ≤ hi)

inductive Piece
  | char (c : Char)
  /-- Any character but a slash. -/
  | one
  /-- Any number of characters but slashes. -/
  | many
  | oneOf (k : CharClass)
  /-- Nothing, or directories with the slash behind them. -/
  | leading
  /-- Nothing, or a slash and directories. -/
  | inner
  | slash (marked : Bool)
  /-- A slash, or the end of the path. Only the slash makes the match one of a directory. -/
  | finish
  deriving DecidableEq, Repr

/-- The path goes no further, a line feed at its very end aside. -/
def atEnd (t : Text) : Bool :=
  t.isEmpty || t == ['\n']

/-- Skips as many characters other than slashes as can be. -/
def skipMany (k : Text → Option Bool) : Text → Option Bool
  | [] => k []
  | c :: rest => if c == '/' then k (c :: rest) else (skipMany k rest).or (k (c :: rest))

/-- Goes behind the last slash that something comes before, or an earlier one; not over a line
feed. -/
def skipDirectories (k : Text → Option Bool) (nonempty : Bool) : Text → Option Bool
  | [] => none
  | c :: rest =>
    (if c == '\n' then none else skipDirectories k true rest).or
      (if nonempty && c == '/' then k rest else none)

/-- Skips as many characters as can be, at least one, but no line feed. -/
def skipSome (k : Text → Option Bool) : Text → Option Bool
  | [] => none
  | c :: rest => if c == '\n' then none else (skipSome k rest).or (k rest)

/-- Whether a path begins with a match, and whether the marked slash was taken then. -/
def matchPieces : List Piece → Bool → Text → Option Bool
  | [], marked, _ => some marked
  | .char x :: ps, marked, t =>
    match t with
    | c :: rest => if c == x then matchPieces ps marked rest else none
    | [] => none
  | .one :: ps, marked, t =>
    match t with
    | c :: rest => if c == '/' then none else matchPieces ps marked rest
    | [] => none
  | .many :: ps, marked, t => skipMany (matchPieces ps marked) t
  | .oneOf k :: ps, marked, t =>
    match t with
    | c :: rest => if k.holds c then matchPieces ps marked rest else none
    | [] => none
  | .leading :: ps, marked, t =>
    (skipDirectories (matchPieces ps marked) false t).or (matchPieces ps marked t)
  | .inner :: ps, marked, t =>
    (match t with
      | '/' :: rest => skipSome (matchPieces ps marked) rest
      | _ => none).or (matchPieces ps marked t)
  | .slash m :: ps, marked, t =>
    match t with
    | '/' :: rest => matchPieces ps (marked || m) rest
    | _ => none
  | .finish :: ps, marked, t =>
    (match t with
      | '/' :: rest => matchPieces ps true rest
      | _ => none).or (if atEnd t then matchPieces ps marked t else none)

end CodeHealth.Ignore
