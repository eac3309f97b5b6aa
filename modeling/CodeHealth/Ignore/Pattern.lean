import CodeHealth.Ignore.Glob
import CodeHealth.Text.Quoted

/-!
# Patterns of ignore files

A line of an ignore file is blank or a comment, or a pattern that ignores paths or, behind an
exclamation mark, includes them again.
-/

namespace CodeHealth.Ignore

/-- What a pattern matches. -/
inductive Matcher
  /-- Any path but the empty one. -/
  | anything
  /-- Any path with something inside a directory; `marked` if that makes it a match of a
  directory. -/
  | nested (marked : Bool)
  | glob (pieces : List Piece)
  deriving DecidableEq, Repr

structure Pattern where
  /-- Whether what matches is ignored, or included again. -/
  ignores : Bool
  matcher : Matcher
  deriving DecidableEq, Repr

/-- Why the patterns of a project cannot be told. -/
inductive PatternFault
  /-- A line that cannot be understood. -/
  | invalid (line : Text)
  /-- A range of characters whose ends are in the wrong order. -/
  | range (lo hi : Char)
  deriving DecidableEq, Repr

def PatternFault.message : PatternFault → String
  | .invalid line => s!"Invalid git pattern: {String.ofList line.quoted}"
  | .range lo hi => s!"bad character range {lo}-{hi}"

/-! ### Reading -/

/-- Why segments give no matcher. -/
inductive SegmentFault
  /-- An escape at the end. -/
  | escape
  /-- A bracket expression that is not closed. -/
  | bracket
  | range (lo hi : Char)
  deriving DecidableEq, Repr

/-- The members of a bracket expression. A dash between two characters makes a range. -/
def classRanges : Text → List (Char × Char)
  | lo :: '-' :: hi :: rest => (lo, hi) :: classRanges rest
  | c :: rest => (c, c) :: classRanges rest
  | [] => []

/-- Reads a bracket expression behind its opening bracket: its members, which may begin with a
closing bracket, and the number of characters up to the closing one. -/
def bracket? (t : Text) : Option (CharClass × Nat) :=
  let (negated, body) := match t with
    | '!' :: rest | '^' :: rest => (true, rest)
    | _ => (false, t)
  let first := if body.head? == some ']' then 1 else 0
  let inside := (body.drop first).takeWhile (· != ']')
  let size := first + inside.length
  if size < body.length then
    some (⟨negated, classRanges (body.take size)⟩, size + 1 + if negated then 1 else 0)
  else none

/-- The glob of a segment; `skip` characters belong to a piece already read. -/
def segmentPieces (skip : Nat) : Text → Except SegmentFault (List Piece)
  | [] => .ok []
  | c :: rest =>
    match skip with
    | n + 1 => segmentPieces n rest
    | 0 =>
      if c == '*' then return .many :: (← segmentPieces 0 rest)
      else if c == '?' then return .one :: (← segmentPieces 0 rest)
      else if c == '\\' then
        match rest with
        | [] => .error .escape
        | x :: _ => return .char x :: (← segmentPieces 1 rest)
      else if c == '[' then
        match bracket? rest with
        | none => .error .bracket
        | some (k, size) => return .oneOf k :: (← segmentPieces size rest)
      else return .char c :: (← segmentPieces 0 rest)

/-- A segment of a pattern between slashes. -/
inductive Segment
  | anyDepth
  | text (t : Text)
  deriving DecidableEq, Repr

def Segment.ofText (t : Text) : Segment :=
  if t == ['*', '*'] then .anyDepth else .text t

/-- A run of double asterisks counts once. -/
def collapse : List Segment → List Segment
  | .anyDepth :: rest =>
    match collapse rest with
    | .anyDepth :: more => .anyDepth :: more
    | more => .anyDepth :: more
  | s :: rest => s :: collapse rest
  | [] => []

/-- The segments of a pattern. A pattern without a slash, its end aside, matches at any depth; a
slash at the end asks for something inside. -/
def segments (t : Text) : List Segment :=
  let parts := t.cutAt '/'
  let parts :=
    match parts with
    | [] :: rest => rest.map some
    | [_] | [_, []] => none :: parts.map some
    | _ => parts.map some
  let last := match parts.getLast? with
    | some (some []) => parts.dropLast ++ [none]
    | _ => parts
  collapse (last.map fun
    | none => .anyDepth
    | some s => .ofText s)

/-- The pieces of one segment: `needsSlash` behind a segment, `isLast` for the final one. -/
def plainPieces (needsSlash isLast : Bool) (t : Text) : Except SegmentFault (List Piece) := do
  let glob ← if t == ['*'] then pure [Piece.one, .many] else segmentPieces 0 t
  return (if needsSlash then [.slash false] else []) ++ glob ++ if isLast then [.finish] else []

/-- The pieces of the segments behind the first. -/
def joinPieces (directory : Bool) : Bool → List Segment → Except SegmentFault (List Piece)
  | _, [] => .ok []
  | _, [.anyDepth] => .ok [.slash directory]
  | _, .anyDepth :: rest => return .inner :: (← joinPieces directory true rest)
  | needsSlash, .text t :: rest =>
    return (← plainPieces needsSlash rest.isEmpty t) ++ (← joinPieces directory true rest)

/-- What a list of segments matches. -/
def Matcher.ofSegments (directory : Bool) : List Segment → Except SegmentFault Matcher
  | [.anyDepth] => .ok (if directory then .nested true else .anything)
  | [.anyDepth, .text ['*']] => .ok .anything
  | [.anyDepth, .text ['*'], .anyDepth] => .ok (.nested directory)
  | .anyDepth :: rest => return .glob (.leading :: (← joinPieces directory false rest))
  | ss => return .glob (← joinPieces directory false ss)

/-- The first range of the pieces whose ends are in the wrong order. -/
def reversedRange? (ps : List Piece) : Option (Char × Char) :=
  ps.findSome? fun
    | .oneOf k => k.ranges.find? fun (lo, hi) => decide (hi < lo)
    | _ => none

/-- The matcher itself, if its ranges are in order. Only a whole glob is checked for that. -/
def Matcher.checked : Matcher → Except SegmentFault Matcher
  | .glob ps =>
    match reversedRange? ps with
    | some (lo, hi) => .error (.range lo hi)
    | none => .ok (.glob ps)
  | m => .ok m

/-- A pattern line without the white space at its end, which an escape keeps. -/
def trimLine (line : Text) : Text :=
  if [' ', '\\'].isPrefixOf line.reverse then line else line.trimRight

/-- The pattern of a line, if it has one. -/
def Pattern.parse (line : Text) : Except PatternFault (Option Pattern) :=
  let t := trimLine line
  if t.isEmpty || t.head? == some '#' || t == ['/'] then .ok none
  else
    let ignores := t.head? != some '!'
    let body := if ignores then t else t.drop 1
    if body.isEmpty then .error (.invalid line)
    else
      let directory := body.getLast? == some '/'
      match (Matcher.ofSegments directory (segments body)).bind Matcher.checked with
      | .ok m => .ok (some ⟨ignores, m⟩)
      | .error .bracket => .ok none
      | .error .escape => .error (.invalid line)
      | .error (.range lo hi) => .error (.range lo hi)

/-! ### Matching -/

/-- Whether a path matches, and whether as something inside a directory. -/
def Matcher.run (m : Matcher) (path : Text) : Option Bool :=
  match m with
  | .anything => if path.isEmpty then none else some false
  | .nested marked => if path.any (· == '/') then some marked else none
  | .glob ps => matchPieces ps false path

/-- The path as patterns see it. -/
def normalPath : Text → Text
  | '/' :: rest => rest
  | '.' :: '/' :: rest => rest
  | t => t

/-- The verdict of patterns, the last one first: a match as something inside a directory stands
until a full match is found. `best` is the verdict of such a match. -/
def verdictFrom (path : Text) (best : Option Bool) : List Pattern → Option Bool
  | [] => best
  | p :: ps =>
    match p.matcher.run path with
    | none => verdictFrom path best ps
    | some false => some p.ignores
    | some true => verdictFrom path (best.or (some p.ignores)) ps

/-- Whether the patterns ignore a path, include it again, or say nothing about it. -/
def verdict (ps : List Pattern) (path : Text) : Option Bool :=
  verdictFrom (normalPath path) none ps.reverse

end CodeHealth.Ignore
