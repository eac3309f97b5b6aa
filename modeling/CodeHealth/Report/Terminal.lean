import CodeHealth.Report.Console
import CodeHealth.Report.Markup

/-!
# The terminal

A console of eighty columns that shows dashes and column titles in colours. It takes the path in a
heading for markup and shows it without its styles.
-/

namespace CodeHealth.Report

/-- The width of a report. -/
def reportWidth : Nat := 80

/-- Text in a style of the terminal. -/
def styled (style : String) (t : Text) : Text :=
  ('\x1b' :: '[' :: style.toList) ++ 'm' :: t ++ ['\x1b', '[', '0', 'm']

def spaces (n : Nat) : Text :=
  List.replicate n ' '

/-! ### Headings -/

/-- A title that leaves room for the dashes around it. -/
def fitTitle (t : Text) : Text :=
  if t.length ≤ reportWidth - 4 then t else t.take (reportWidth - 5) ++ ['…']

def dashes (n : Nat) : Text :=
  List.replicate n '-'

/-- A title between dashes. -/
def titleLine (title : Text) : Text :=
  let side := (reportWidth - title.length) / 2
  styled "36" (dashes (side - 1) ++ [' ']) ++ title ++
    styled "36" (' ' :: dashes (reportWidth - side - title.length - 1))

/-- The heading of a file. A tag in its path that closes nothing is refused. -/
def heading (file : Text) : Except ConsoleFault Text :=
  let ps := pieces 0 0 file
  match unmatched? [] (tags ps) with
  | none => .ok (titleLine (fitTitle (shown ps)))
  | some body => .error ⟨"closing tag '[".toList ++ body ++ "]' has nothing to close".toList⟩

/-! ### Cells -/

/-- A word of a cell carries the white space behind it, the first one also that before it. -/
def splitWords : Text → List Text
  | [] => []
  | c :: rest =>
    match splitWords rest with
    | [] => [[c]]
    | w :: more =>
      -- `c` belongs to the next word unless that begins behind white space
      if !Text.isBlank c && w.head?.any Text.isBlank then
        let (gap, tail) := (w.takeWhile Text.isBlank, w.dropWhile Text.isBlank)
        if tail.isEmpty then (c :: w) :: more else (c :: gap) :: tail :: more
      else (c :: w) :: more

/-- Pieces of `w` characters, at most `n` of them. -/
def chop (w : Nat) : Nat → Text → List Text
  | 0, t => [t]
  | n + 1, t => if t.length ≤ w then [t] else t.take w :: chop w n (t.drop w)

/-- The lines of a cell while it is filled. The latest line comes first. -/
structure Filling where
  lines : List Text
  used : Nat

/-- Puts a word on the latest line, on a new line, or in pieces on new lines. -/
def Filling.add (w : Nat) (f : Filling) (word : Text) : Filling :=
  let size := word.trimRight.length
  match f.lines with
  | [] =>
    let pieces := if size ≤ w then [word] else chop w word.length word
    ⟨pieces.reverse, (pieces.getLastD []).length⟩
  | line :: above =>
    if size ≤ w - f.used then ⟨(line ++ word) :: above, f.used + word.length⟩
    else if w < size then
      let pieces := chop w word.length word
      ⟨pieces.reverse ++ f.lines, (pieces.getLastD []).length⟩
    else ⟨word :: f.lines, word.length⟩

/-- Drops white space at the end of a line that goes beyond `w`. -/
def cutEnd (w : Nat) (t : Text) : Text :=
  let blanks := (t.reverse.takeWhile Text.isBlank).length
  t.take (t.length - min blanks (t.length - w))

/-- The lines of a cell of width `w`. -/
def wrap (w : Nat) (t : Text) : List Text :=
  match ((splitWords t).foldl (Filling.add w) ⟨[], 0⟩).lines.reverse with
  | [] => [[]]
  | ls => ls.map (cutEnd w)

inductive Align
  | left | right

/-- A line filled with spaces to `w`. -/
def fillLine (a : Align) (w : Nat) (t : Text) : Text :=
  match a with
  | .left => t ++ spaces (w - t.length)
  | .right => spaces (w - t.trimRight.length) ++ t.trimRight

structure Column where
  title : String
  width : Nat
  align : Align

def columns : List Column :=
  [⟨"rule_code", 12, .left⟩, ⟨"severity", 5, .left⟩, ⟨"start_line", 5, .right⟩,
   ⟨"end_line", 5, .right⟩, ⟨"message", 37, .left⟩]

/-! ### Tables -/

/-- The characters of a horizontal line: its fill, and the marks at its ends and joints. -/
structure Ruling where
  fill : Char
  left : Char
  joint : Char
  right : Char

def topRuling : Ruling := ⟨'━', '┏', '┳', '┓'⟩
def headRuling : Ruling := ⟨'━', '┡', '╇', '┩'⟩
def rowRuling : Ruling := ⟨'─', '├', '┼', '┤'⟩
def endRuling : Ruling := ⟨'─', '└', '┴', '┘'⟩

def ruling (r : Ruling) : Text :=
  r.left :: [r.joint].intercalate (columns.map fun c => List.replicate (c.width + 2) r.fill) ++
    [r.right]

/-- The lines of one row of cells, each given by all its lines. -/
def rowLines (bar : Char) (height : Nat) (cells : List (List Text)) : List Text :=
  (List.range height).map fun i =>
    bar :: [bar].intercalate (cells.map fun ls => ls.getD i []) ++ [bar]

def maxHeight (cells : List (List Text)) : Nat :=
  (cells.map List.length).foldl max 0

/-- The lines of the column titles, which stand at the bottom of their cells. -/
def headLines : List Text :=
  let cells := columns.map fun c => (c, wrap c.width c.title.toList)
  let height := maxHeight (cells.map Prod.snd)
  let bold := styled "1"
  rowLines '┃' height (cells.map fun (c, ls) =>
    List.replicate (height - ls.length) (bold (spaces (c.width + 2))) ++
      ls.map fun l => bold [' '] ++ bold (fillLine c.align c.width l) ++ bold [' '])

/-- The lines of a row of the table. -/
def bodyLines (texts : List Text) : List Text :=
  let cells := (columns.zip texts).map fun (c, t) => (c, wrap c.width t)
  let height := maxHeight (cells.map Prod.snd)
  rowLines '│' height (cells.map fun (c, ls) =>
    (ls.map fun l => ' ' :: fillLine c.align c.width l ++ [' ']) ++
      List.replicate (height - ls.length) (spaces (c.width + 2)))

def rowTexts (f : Located) : List Text :=
  [f.finding.violation.rule.code, f.finding.severity.name, toString f.startLine,
   toString f.endLine, f.finding.violation.message].map String.toList

/-- The lines of the table of one file. -/
def tableLines (findings : List Located) : List Text :=
  [ruling topRuling] ++ headLines ++ [ruling headRuling] ++
    [ruling rowRuling].intercalate (findings.map fun f => bodyLines (rowTexts f)) ++
    [ruling endRuling]

def countLine (n : Nat) : Text :=
  styled "33" "findings".toList ++ '=' :: styled "1;36" (toString n).toList

def terminal : Console where
  print
    | .heading file => (heading file).map (· ++ ['\n'])
    | .rows findings => .ok ((tableLines findings).flatMap (· ++ ['\n']))
    | .count n => .ok (countLine n ++ ['\n'])

end CodeHealth.Report
