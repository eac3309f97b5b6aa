import CodeHealth.Source.Lexeme
import CodeHealth.Source.Tree

/-!
# Parsing expressions

A grammar is data: a parsing expression for each of its rules. `Peg.run` interprets it over a
cursor that holds the trees read so far and the text that is left. The interpreter only ever cuts
the text that is left and keeps all the pieces, so no character is lost or moved, whatever the
grammar.
-/

namespace CodeHealth.Source

/-- Parsing expressions over the rules `ρ`. -/
inductive Peg (ρ : Type)
  /-- A gap and a lexeme behind it. -/
  | token (l : Lexeme)
  /-- A lexeme with no gap before it. -/
  | tight (l : Lexeme)
  /-- The comments that follow on the line of the last token, as one token. -/
  | lineTail
  | seq (ps : List (Peg ρ))
  /-- The first alternative that succeeds. -/
  | choice (ps : List (Peg ρ))
  | star (p : Peg ρ)
  | opt (p : Peg ρ)
  /-- Succeeds where `p` does, without reading. -/
  | ahead (p : Peg ρ)
  /-- Succeeds where `p` fails, without reading. -/
  | notAhead (p : Peg ρ)
  /-- The next token is on another line. -/
  | newLine
  /-- The next token is on the same line. -/
  | sameLine
  /-- Only a gap is left. -/
  | atEnd
  | node (k : Kind) (p : Peg ρ)
  | call (r : ρ)

/-- A place in a text: the trees before it, the latest first, and the text behind it. -/
structure Cursor where
  done : List Tree
  rest : Text

namespace Cursor

/-- Reads a token of `n` characters behind a gap of `g` characters. -/
def advance (c : Cursor) (g n : Nat) : Cursor where
  done := .token (c.rest.take g) ((c.rest.drop g).take n) :: c.done
  rest := (c.rest.drop g).drop n

def readToken (l : Lexeme) (c : Cursor) : Option Cursor :=
  let g := gapWidth .free c.rest
  (l.width (c.rest.drop g)).map (c.advance g)

def readTight (l : Lexeme) (c : Cursor) : Option Cursor :=
  (l.width c.rest).map (c.advance 0)

def readLineTail (c : Cursor) : Option Cursor :=
  match lineTailEnd .free 0 0 c.rest with
  | some (n + 1) =>
    let g := (c.rest.takeWhile isSpace).length
    some (c.advance g (n + 1 - g))
  | _ => none

/-- The cursor with the trees read since `c` gathered under one node. -/
def wrap (c : Cursor) (k : Kind) (inner : Cursor) : Cursor where
  done := .node k inner.done.reverse :: c.done
  rest := inner.rest

end Cursor

/-- Repeats a step until it fails, at most `n` times. -/
def repeatStep (step : Cursor → Option Cursor) : Nat → Cursor → Cursor
  | 0, c => c
  | n + 1, c =>
    match step c with
    | none => c
    | some d => repeatStep step n d

namespace Peg

/-- Interprets a parsing expression. The depth bounds the nesting of expressions and the length of
repetitions. -/
def run {ρ : Type} (g : ρ → Peg ρ) : Nat → Peg ρ → Cursor → Option Cursor
  | 0, _, _ => none
  | depth + 1, p, c =>
    match p with
    | .token l => c.readToken l
    | .tight l => c.readTight l
    | .lineTail => c.readLineTail
    | .seq ps => ps.foldlM (fun d q => run g depth q d) c
    | .choice ps => ps.findSome? fun q => run g depth q c
    | .star q => some (repeatStep (run g depth q) depth c)
    | .opt q => some ((run g depth q c).getD c)
    | .ahead q => (run g depth q c).map fun _ => c
    | .notAhead q => if (run g depth q c).isSome then none else some c
    | .newLine => if breaksLine c.rest then some c else none
    | .sameLine => if breaksLine c.rest then none else some c
    | .atEnd => if gapWidth .free c.rest == c.rest.length then some c else none
    | .node k q => (run g depth q ⟨[], c.rest⟩).map (c.wrap k)
    | .call r => run g depth (g r) c

/-- The tree of a whole text. What the grammar leaves unread stands in the last token. -/
def read {ρ : Type} (g : ρ → Peg ρ) (start : ρ) (t : Text) : Tree :=
  let c := (run g (400 * (t.length + 10)) (.call start) ⟨[], t⟩).getD ⟨[], t⟩
  .node .program (.token c.rest [] :: c.done).reverse

end Peg

end CodeHealth.Source
