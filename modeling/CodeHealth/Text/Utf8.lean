import CodeHealth.Text.Basic

/-!
# UTF-8

Decoding with the place and the reason of the first fault.
-/

namespace CodeHealth.Text

abbrev Bytes := List UInt8

inductive DecodeReason
  | startByte | continuationByte | endOfData
  deriving DecidableEq, Repr

/-- The faulty bytes: their position, how many there are, and the first of them. -/
structure DecodeFault where
  position : Nat
  count : Nat
  byte : UInt8
  reason : DecodeReason
  deriving DecidableEq, Repr

def DecodeReason.message : DecodeReason → String
  | .startByte => "invalid start byte"
  | .continuationByte => "invalid continuation byte"
  | .endOfData => "unexpected end of data"

def DecodeFault.message (e : DecodeFault) : String :=
  let digits := String.ofList (hex 2 e.byte.toNat)
  let place :=
    if e.count ≤ 1 then s!"byte 0x{digits} in position {e.position}"
    else s!"bytes in position {e.position}-{e.position + e.count - 1}"
  s!"'utf-8' codec can't decode {place}: {e.reason.message}"

def isContinuation (b : UInt8) : Bool :=
  0x80 ≤ b && b ≤ 0xBF

/-- Whether `b` may follow the start byte `a`. The shortest form is required, and neither
surrogates nor code points beyond the last one may be written. -/
def isSecondByte (a b : UInt8) : Bool :=
  isContinuation b &&
    (if a == 0xE0 then 0xA0 ≤ b
     else if a == 0xED then b ≤ 0x9F
     else if a == 0xF0 then 0x90 ≤ b
     else if a == 0xF4 then b ≤ 0x8F
     else true)

/-- The number of bytes that a start byte announces. -/
def sequenceLength? (a : UInt8) : Option Nat :=
  if a ≤ 0x7F then some 1
  else if 0xC2 ≤ a && a ≤ 0xDF then some 2
  else if 0xE0 ≤ a && a ≤ 0xEF then some 3
  else if 0xF0 ≤ a && a ≤ 0xF4 then some 4
  else none

/-- The number of bytes behind the start byte `a` that are in order, of the `need` that are
expected. -/
def followers (a : UInt8) (need : Nat) (rest : Bytes) : Nat :=
  match rest.take need with
  | [] => 0
  | b :: more => if isSecondByte a b then 1 + (more.takeWhile isContinuation).length else 0

/-- The code point of a sequence. -/
def codePoint (a : UInt8) (more : Bytes) : Nat :=
  let lead := match more.length with
    | 0 => a.toNat
    | 1 => a.toNat - 0xC0
    | 2 => a.toNat - 0xE0
    | _ => a.toNat - 0xF0
  more.foldl (fun n b => 64 * n + (b.toNat - 0x80)) lead

/-- Decodes the bytes from `position` on; `skip` of them belong to a character already read. -/
def decodeFrom (position skip : Nat) : Bytes → Except DecodeFault Text
  | [] => .ok []
  | a :: rest =>
    match skip with
    | n + 1 => decodeFrom (position + 1) n rest
    | 0 =>
      match sequenceLength? a with
      | none => .error ⟨position, 1, a, .startByte⟩
      | some len =>
        let n := followers a (len - 1) rest
        if n == len - 1 then do
          let t ← decodeFrom (position + 1) n rest
          return Char.ofNat (codePoint a (rest.take n)) :: t
        else if n == rest.length then .error ⟨position, n + 1, a, .endOfData⟩
        else .error ⟨position, n + 1, a, .continuationByte⟩

def decode (bs : Bytes) : Except DecodeFault Text :=
  decodeFrom 0 0 bs

def encode (t : Text) : Bytes :=
  (String.ofList t).toUTF8.toList

/-- Carriage returns, alone or before a line feed, become line feeds. -/
def unifyNewlines : Text → Text
  | [] => []
  | '\r' :: '\n' :: rest => '\n' :: unifyNewlines rest
  | c :: rest => (if c == '\r' then '\n' else c) :: unifyNewlines rest

/-- The text of a file. -/
def ofFile (bs : Bytes) : Except DecodeFault Text :=
  (decode bs).map unifyNewlines

def isLineBoundary (c : Char) : Bool :=
  let n := c.toNat
  (0x0A ≤ n && n ≤ 0x0C) || (0x1C ≤ n && n ≤ 0x1E) || n == 0x85 || n == 0x2028 || n == 0x2029

/-- The lines of a text whose newlines are unified, cut at every line boundary of Unicode. A
boundary at the end opens no further line. -/
def boundaryLines : Text → List Text
  | [] => []
  | c :: rest =>
    if isLineBoundary c then [] :: boundaryLines rest
    else
      match boundaryLines rest with
      | [] => [[c]]
      | line :: more =>
        (c :: line) :: more

end CodeHealth.Text
