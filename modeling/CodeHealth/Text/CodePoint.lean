import CodeHealth.Text.Basic

/-!
# Code points

A string of code points may hold surrogates, which no text does: they have no encoded form. The
texts are the strings that can be encoded.
-/

namespace CodeHealth

/-- A scalar value, or the surrogate that stands `n` behind the first one. -/
inductive CodePoint
  | scalar (c : Char)
  | surrogate (n : Fin 0x800)
  deriving DecidableEq, Repr

namespace CodePoint

def isSurrogate : CodePoint → Bool
  | scalar _ => false
  | surrogate _ => true

/-- The surrogates in the way of encoding: the position of the first, how many stand together there,
and the first of them. -/
structure EncodeFault where
  position : Nat
  count : Nat
  first : Fin 0x800
  deriving DecidableEq, Repr

def EncodeFault.message (e : EncodeFault) : String :=
  let digits := String.ofList (Text.hex 4 (0xD800 + e.first))
  let place :=
    if e.count ≤ 1 then s!"character '\\u{digits}' in position {e.position}"
    else s!"characters in position {e.position}-{e.position + e.count - 1}"
  s!"'utf-8' codec can't encode {place}: surrogates not allowed"

/-- The text of a string whose first code point stands at `position`. -/
def textFrom (position : Nat) : List CodePoint → Except EncodeFault Text
  | [] => .ok []
  | scalar c :: rest => (textFrom (position + 1) rest).map (c :: ·)
  | surrogate n :: rest => .error ⟨position, 1 + (rest.takeWhile isSurrogate).length, n⟩

/-- The text of a string, if it can be encoded. -/
def text (s : List CodePoint) : Except EncodeFault Text :=
  textFrom 0 s

end CodePoint

end CodeHealth
