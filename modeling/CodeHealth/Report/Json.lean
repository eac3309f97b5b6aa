import CodeHealth.Report.Located
import CodeHealth.Text.Quoted

/-!
# Reports as JSON

The report is an object of errors and findings, indented by two spaces, with the fields of every
object in the order of their names and all characters beyond ASCII escaped.
-/

namespace CodeHealth.Report

inductive Json
  | number (n : Int)
  | string (t : Text)
  | array (items : List Json)
  | object (fields : List (Text × Json))

/-- A unit of UTF-16 as an escape. -/
def unitEscape (n : Nat) : Text :=
  '\\' :: 'u' :: Text.hex 4 n

/-- A character inside a JSON string. Beyond the first plane it takes two escapes. -/
def jsonChar (c : Char) : Text :=
  let n := c.toNat
  if c == '"' || c == '\\' then ['\\', c]
  else if c == '\n' then ['\\', 'n']
  else if c == '\r' then ['\\', 'r']
  else if c == '\t' then ['\\', 't']
  else if n == 0x08 then ['\\', 'b']
  else if n == 0x0C then ['\\', 'f']
  else if 0x20 ≤ n && n < 0x7F then [c]
  else if n < 0x10000 then unitEscape n
  else unitEscape (0xD800 + (n - 0x10000) / 0x400) ++ unitEscape (0xDC00 + (n - 0x10000) % 0x400)

def jsonString (t : Text) : Text :=
  '"' :: t.flatMap jsonChar ++ ['"']

/-- A new line with an indentation. -/
def newLine (indent : Nat) : Text :=
  '\n' :: List.replicate indent ' '

/-- Items between brackets, each on a line of its own. -/
def bracketed (opening closing : Char) (indent : Nat) (items : List Text) : Text :=
  if items.isEmpty then [opening, closing]
  else
    opening :: newLine (indent + 2) ++ (',' :: newLine (indent + 2)).intercalate items ++
      newLine indent ++ [closing]

namespace Json

mutual

/-- The text of a value whose line is indented by `indent`. -/
def render (indent : Nat) : Json → Text
  | .number n => (toString n).toList
  | .string t => jsonString t
  | .array items => bracketed '[' ']' indent (renderItems (indent + 2) items)
  | .object fields => bracketed '\x7b' '\x7d' indent (renderFields (indent + 2) fields)

def renderItems (indent : Nat) : List Json → List Text
  | [] => []
  | v :: rest => v.render indent :: renderItems indent rest

def renderFields (indent : Nat) : List (Text × Json) → List Text
  | [] => []
  | (k, v) :: rest =>
    (jsonString k ++ [':', ' '] ++ v.render indent) :: renderFields indent rest

end

def ofFields (fields : List (String × Json)) : Json :=
  .object (fields.map fun (k, v) => (k.toList, v))

/-- The fields of what a report says about a finding. -/
def ofEntry (e : Entry) : Json :=
  ofFields [
    ("end_line", .number e.endLine),
    ("end_offset", .number e.endOffset),
    ("file_path", .string e.file),
    ("message", .string e.message),
    ("rule_code", .string e.rule),
    ("severity", .string e.severity),
    ("start_line", .number e.startLine),
    ("start_offset", .number e.startOffset)]

def ofError (e : FileError) : Json :=
  ofFields [("file_path", .string e.file), ("message", .string e.message)]

/-- A whole report. -/
def ofReport (entries : List Entry) (errors : List FileError) : Json :=
  ofFields [
    ("errors", .array (errors.map ofError)),
    ("findings", .array (entries.map ofEntry))]

end Json

/-- The report as JSON, without a line feed at the end. -/
def json (findings : List Located) (errors : List FileError) : Text :=
  (Json.ofReport (findings.map Entry.ofLocated) errors).render 0

end CodeHealth.Report
