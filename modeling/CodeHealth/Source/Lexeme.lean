import CodeHealth.Text.Basic

/-!
# Lexemes

The lexical classes of TypeScript, JavaScript and their markup. `Lexeme.width` tells how many
characters a lexeme of a class takes at the start of a text. Which class is tried where is for the
grammar to say: a slash is a division or opens a regular expression, a bracket compares or opens a
tag.
-/

namespace CodeHealth.Source

/-- White space between tokens. -/
def isSpace (c : Char) : Bool :=
  let n := c.toNat
  (0x09 ≤ n && n ≤ 0x0D) || n == 0x20 || n == 0x85 || n == 0xA0 || n == 0x1680 ||
  (0x2000 ≤ n && n ≤ 0x200B) || n == 0x2028 || n == 0x2029 || n == 0x202F || n == 0x205F ||
  n == 0x2060 || n == 0x3000 || n == 0xFEFF

def isLineEnd (c : Char) : Bool :=
  c == '\n' || c == '\r' || c.toNat == 0x2028 || c.toNat == 0x2029

/-- Where a scan of a gap stands: between comments, in a line comment, in a block comment. -/
inductive Gap
  | free | line | block

/-- The length of the white space and comments at the start of a text. -/
def gapWidth : Gap → Text → Nat
  | _, [] => 0
  | .free, '/' :: '/' :: rest => gapWidth .line rest + 2
  | .free, '/' :: '*' :: rest => gapWidth .block rest + 2
  | .free, c :: rest => if isSpace c then gapWidth .free rest + 1 else 0
  | .line, c :: rest => gapWidth (if isLineEnd c then .free else .line) rest + 1
  | .block, '*' :: '/' :: rest => gapWidth .free rest + 2
  | .block, _ :: rest => gapWidth .block rest + 1

/-- Whether the gap at the start of a text runs into another line. -/
def breaksLine (t : Text) : Bool :=
  (t.take (gapWidth .free t)).any isLineEnd

/-- Characters that no name holds. -/
def isPunctuation (c : Char) : Bool :=
  c.toNat ≤ 0x20 || ":;`\"'@#.,|^&<=>+-*/\\%?!~()[]\x7b\x7d".toList.contains c || isSpace c

def isNameStart (c : Char) : Bool :=
  !isPunctuation c && !c.isDigit

/-- The length of a name from a place inside it; `inBraces` while a braced escape is open. -/
def nameTail : Bool → Text → Nat
  | _, [] => 0
  | true, c :: rest => nameTail (c != '\x7d') rest + 1
  | false, '\\' :: 'u' :: '\x7b' :: rest => nameTail true rest + 3
  | false, '\\' :: 'u' :: rest => nameTail false rest + 2
  | false, c :: rest => if isPunctuation c then 0 else nameTail false rest + 1

/-- The length of the name or keyword at the start of a text. -/
def wordWidth (t : Text) : Nat :=
  match t with
  | '\\' :: 'u' :: _ => nameTail false t
  | c :: _ => if isNameStart c then nameTail false t else 0
  | [] => 0

/-- Words that are never names. -/
def reservedWords : List Text :=
  ["break", "case", "catch", "class", "const", "continue", "debugger", "default", "delete", "do",
   "else", "enum", "export", "extends", "finally", "for", "function", "if", "import", "in",
   "instanceof", "new", "return", "switch", "throw", "try", "typeof", "var", "void", "while",
   "with"].map String.toList

/-- The operators of more than one character, the longest first. -/
def operators : List Text :=
  [">>>=", "...", "===", "!==", "**=", "<<=", ">>=", ">>>", "&&=", "||=", "??=", "=>", "==", "!=",
   "<=", ">=", "&&", "||", "??", "?.", "++", "--", "+=", "-=", "*=", "/=", "%=", "&=", "|=", "^=",
   "<<", ">>", "**"].map String.toList

/-- The longest operator at the start of a text. A question mark before a decimal point belongs to
a conditional. -/
def operatorAt (t : Text) : Text :=
  match t with
  | '?' :: '.' :: c :: _ => if c.isDigit then ['?'] else ['?', '.']
  | _ =>
    match operators.find? (·.isPrefixOf t) with
    | some o => o
    | none => (t.take 1).filter fun c => isPunctuation c

def digitsWidth (t : Text) : Nat :=
  (t.takeWhile fun c => c.isDigit || c == '_').length

/-- The length of an exponent, none if there is no digit in it. -/
def exponentWidth : Text → Nat
  | e :: s :: c :: _ =>
    if !(e == 'e' || e == 'E') then 0
    else if s.isDigit then 1
    else if (s == '+' || s == '-') && c.isDigit then 2
    else 0
  | [e, c] => if (e == 'e' || e == 'E') && c.isDigit then 1 else 0
  | _ => 0

/-- The fraction, exponent and size mark of a number, whose first digits are read. -/
def fractionWidth (t : Text) : Nat :=
  let point := match t with
    | '.' :: rest => digitsWidth rest + 1
    | _ => 0
  let t := t.drop point
  let mark := exponentWidth t
  let exponent := if mark == 0 then 0 else mark + digitsWidth (t.drop mark)
  let size := match t.drop exponent with
    | 'n' :: _ => 1
    | _ => 0
  point + exponent + size

def numberWidth : Text → Nat
  | '0' :: b :: rest =>
    if "xXbBoO".toList.contains b then (rest.takeWhile Text.isWordChar).length + 2
    else
      let n := digitsWidth ('0' :: b :: rest)
      n + fractionWidth (('0' :: b :: rest).drop n)
  | '.' :: c :: rest => if c.isDigit then fractionWidth ('.' :: c :: rest) else 0
  | t =>
    let n := digitsWidth t
    if t.head?.any Char.isDigit then n + fractionWidth (t.drop n) else 0

/-- The rest of a string whose quote is `q`, closed on its own line. -/
def stringTail (q : Char) : Text → Option Nat
  | '\\' :: '\r' :: '\n' :: rest => (stringTail q rest).map (· + 3)
  | '\\' :: _ :: rest => (stringTail q rest).map (· + 2)
  | c :: rest =>
    if c == q then some 1
    else if c == '\n' || c == '\r' then none
    else (stringTail q rest).map (· + 1)
  | [] => none

/-- The rest of a regular expression; `inClass` between square brackets. -/
def regexTail : Bool → Text → Option Nat
  | inClass, '\\' :: c :: rest =>
    if isLineEnd c then none else (regexTail inClass rest).map (· + 2)
  | inClass, c :: rest =>
    if isLineEnd c then none
    else if c == '/' && !inClass then some ((rest.takeWhile Char.isAlpha).length + 1)
    else (regexTail (c == '[' || (inClass && c != ']')) rest).map (· + 1)
  | _, [] => none

/-- The length of the literal text of a template up to its end or the next substitution. -/
def templateWidth : Text → Nat
  | '\\' :: _ :: rest => templateWidth rest + 2
  | '$' :: '\x7b' :: _ => 0
  | '\x60' :: _ => 0
  | _ :: rest => templateWidth rest + 1
  | [] => 0

/-- Whether a text goes on with something that cannot begin a statement after a line break, so
that the line break ends nothing. -/
def continuesStatement (t : Text) : Bool :=
  match t.drop (gapWidth .free t) with
  | [] => false
  | '+' :: rest => rest.head? != some '+'
  | '-' :: rest => rest.head? != some '-'
  | '!' :: rest => rest.head? == some '='
  | c :: rest =>
    "`,.;*%><=?^|&/:".toList.contains c ||
      ["in".toList, "instanceof".toList].contains ((c :: rest).take (wordWidth (c :: rest)))

/-- The end of the last comment that begins on the current line, if only comments follow on it and
the next token begins a statement. The scan has come to `pos`, the last comment ended at `last`. -/
def lineTailEnd : Gap → Nat → Nat → Text → Option Nat
  | .free, _, last, [] => some last
  | .line, pos, _, [] => some pos
  | .block, pos, _, [] => some pos
  | .free, pos, last, '/' :: '/' :: rest => lineTailEnd .line (pos + 2) last rest
  | .free, pos, last, '/' :: '*' :: rest => lineTailEnd .block (pos + 2) last rest
  | .free, pos, last, c :: rest =>
    if c == '\n' then if continuesStatement rest then none else some last
    else if isSpace c then lineTailEnd .free (pos + 1) last rest
    else none
  | .line, pos, last, c :: rest =>
    if c == '\n' then if continuesStatement rest then none else some pos
    else if isLineEnd c then lineTailEnd .free (pos + 1) pos rest
    else lineTailEnd .line (pos + 1) last rest
  | .block, pos, _, '*' :: '/' :: rest => lineTailEnd .free (pos + 2) (pos + 2) rest
  | .block, pos, last, _ :: rest => lineTailEnd .block (pos + 1) last rest

/-- The classes of lexemes. -/
inductive Lexeme
  /-- A name or keyword. -/
  | word
  /-- A word that is not reserved. -/
  | name
  | keyword (w : Text)
  /-- One of the operators, none of which is cut out of a longer one. -/
  | operator (os : List Text)
  /-- The characters themselves, whatever follows. -/
  | exactly (t : Text)
  | number | string | regex | privateName
  | templateText
  /-- The name of a tag or attribute of markup. -/
  | tagName
  | tagString | tagText
  | interpreterLine
  | anyChar
  deriving Repr

def atLeastOne (n : Nat) : Option Nat :=
  if n == 0 then none else some n

/-- The number of characters that a lexeme of the class takes at the start of the text. -/
def Lexeme.width : Lexeme → Text → Option Nat
  | .word, t => atLeastOne (wordWidth t)
  | .name, t =>
    let n := wordWidth t
    if reservedWords.contains (t.take n) then none else atLeastOne n
  | .keyword w, t => if t.take (wordWidth t) == w then atLeastOne w.length else none
  | .operator os, t =>
    let o := operatorAt t
    if os.contains o then atLeastOne o.length else none
  | .exactly x, t => if x.isPrefixOf t then atLeastOne x.length else none
  | .number, t => atLeastOne (numberWidth t)
  | .string, t =>
    match t with
    | '"' :: rest => (stringTail '"' rest).map (· + 1)
    | '\'' :: rest => (stringTail '\'' rest).map (· + 1)
    | _ => none
  | .regex, t =>
    match t with
    | '/' :: c :: rest => if c == '/' || c == '*' then none else (regexTail false (c :: rest)).map (· + 1)
    | _ => none
  | .privateName, t =>
    match t with
    | '#' :: rest => (atLeastOne (wordWidth rest)).map (· + 1)
    | _ => none
  | .templateText, t => atLeastOne (templateWidth t)
  | .tagName, t =>
    if t.head?.any isNameStart then
      atLeastOne (t.takeWhile fun c => !isPunctuation c || c == '-' || c == ':' || c == '.').length
    else none
  | .tagString, t =>
    match t with
    | q :: rest =>
      if q == '"' || q == '\'' then
        let n := (rest.takeWhile (· != q)).length
        if n < rest.length then some (n + 2) else none
      else none
    | [] => none
  | .tagText, t => atLeastOne (t.takeWhile fun c => c != '<' && c != '\x7b').length
  | .interpreterLine, t =>
    match t with
    | '#' :: '!' :: rest => some ((rest.takeWhile (!isLineEnd ·)).length + 2)
    | _ => none
  | .anyChar, t => atLeastOne (t.take 1).length

end CodeHealth.Source
