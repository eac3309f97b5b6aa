import CodeHealth.Text.Printable
import CodeHealth.Text.Basic

/-!
# Quoted texts

Messages quote texts so that every character can be told apart: in single quotes, or in double
quotes where the text has a single quote and no double quote. Characters that are not printable
are written by their code point.
-/

namespace CodeHealth.Text

/-- A character that is not printable, by its code point. -/
def codePointEscape (c : Char) : Text :=
  let n := c.toNat
  if n ≤ 0xFF then '\\' :: 'x' :: hex 2 n
  else if n ≤ 0xFFFF then '\\' :: 'u' :: hex 4 n
  else '\\' :: 'U' :: hex 8 n

def quotedChar (quote c : Char) : Text :=
  if c == quote || c == '\\' then ['\\', c]
  else if c == '\n' then ['\\', 'n']
  else if c == '\r' then ['\\', 'r']
  else if c == '\t' then ['\\', 't']
  else if isPrintable c then [c]
  else codePointEscape c

def quoteFor (t : Text) : Char :=
  if t.any (· == '\'') && !t.any (· == '"') then '"' else '\''

def quoted (t : Text) : Text :=
  let q := quoteFor t
  q :: t.flatMap (quotedChar q) ++ [q]

/-- A text that may be absent. -/
def quotedOpt : Option Text → Text
  | some t => t.quoted
  | none => "None".toList

end CodeHealth.Text
