import CodeHealth.Text.LowerCase

/-!
# Markup

Text with tags in brackets that stand for styles. A tag opens a style or closes one that is open.
-/

namespace CodeHealth.Report

/-- Whether a tag can begin behind an opening bracket. -/
def opensTag (c : Char) : Bool :=
  c.isLower || c == '#' || c == '/' || c == '@'

/-- The length of the tag behind an opening bracket, its closing bracket included. -/
def tagLength? (t : Text) : Option Nat :=
  if t.head?.any opensTag then
    let n := (t.takeWhile fun c => c != '[' && c != ']').length
    if t[n]? == some ']' then some (n + 1) else none
  else none

def backslashes (n : Nat) : Text :=
  List.replicate n '\\'

/-- A piece of markup: a character that is shown, or a tag without its brackets. -/
inductive Piece
  | char (c : Char)
  | tag (body : Text)
  deriving DecidableEq, Repr

/-- The pieces of markup from an opening bracket on, with `held` backslashes before it and `rest`
behind it. A backslash before a tag keeps it, two before it stand for one; before any other opening
bracket one backslash is left out. `behind n` are the pieces of `rest` without its first `n`
characters. -/
def bracketPieces (held : Nat) (rest : Text) (behind : Nat → List Piece) : List Piece :=
  match tagLength? rest with
  | some n =>
    (backslashes (held / 2)).map .char ++
      if held % 2 == 0 then .tag (rest.take (n - 1)) :: behind n else .char '[' :: behind 0
  | none => (backslashes (held - 1)).map .char ++ .char '[' :: behind 0

/-- The pieces of markup. Of the text, `skip` characters belong to a tag, and `held` backslashes
before it are not yet shown. -/
def pieces (skip held : Nat) : Text → List Piece
  | [] => (backslashes held).map .char
  | c :: rest =>
    match skip with
    | n + 1 => pieces n 0 rest
    | 0 =>
      if c == '\\' then pieces 0 (held + 1) rest
      else if c == '[' then bracketPieces held rest fun n => pieces n 0 rest
      else (backslashes held).map .char ++ .char c :: pieces 0 0 rest

/-- What pieces look like: tags are left out. -/
def shown (ps : List Piece) : Text :=
  ps.flatMap fun
    | .char c => [c]
    | .tag _ => []

def tags (ps : List Piece) : List Text :=
  ps.filterMap fun
    | .char _ => none
    | .tag body => some body

/-- The name of a tag stands before its value. -/
def tagName (body : Text) : Text :=
  (Text.trim (body.takeWhile (· != '='))).lower

/-- The first tag that closes nothing, after the tags named in `opened`, the latest first, have been
opened. A slash alone closes the latest. -/
def unmatched? (opened : List Text) : List Text → Option Text
  | [] => none
  | body :: rest =>
    match tagName body with
    | '/' :: name =>
      match Text.trim name, opened with
      | [], [] => some body
      | [], _ :: opened => unmatched? opened rest
      | name, opened =>
        if opened.contains name then unmatched? (opened.erase name) rest else some body
    | name => unmatched? (name :: opened) rest

end CodeHealth.Report
