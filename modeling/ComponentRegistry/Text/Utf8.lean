/-!
# Units of byte text

A byte string is read as a list of units: the characters that are well-formed UTF-8, and between
them the maximal runs of bytes that begin a character and break off.  Each such run stands for one
replacement character when the text is shown.
-/

namespace ComponentRegistry.Text

/-- One unit of a byte text: a character, or a run of bytes that is no UTF-8. -/
inductive Glyph where
  | char (c : Char)
  | bytes (run : List UInt8)
  deriving DecidableEq, Repr

/-- The ranges that the bytes after `lead` have to lie in; `none` if no character starts so. -/
def continuationRanges (lead : UInt8) : Option (List (UInt8 × UInt8)) :=
  let next : UInt8 × UInt8 := (0x80, 0xBF)
  if lead < 0x80 then some []
  else if 0xC2 ≤ lead && lead ≤ 0xDF then some [next]
  else if lead == 0xE0 then some [(0xA0, 0xBF), next]
  else if lead == 0xED then some [(0x80, 0x9F), next]
  else if 0xE1 ≤ lead && lead ≤ 0xEF then some [next, next]
  else if lead == 0xF0 then some [(0x90, 0xBF), next, next]
  else if 0xF1 ≤ lead && lead ≤ 0xF3 then some [next, next, next]
  else if lead == 0xF4 then some [(0x80, 0x8F), next, next]
  else none

/-- The longest start of the text whose bytes lie in the ranges, one byte a range. -/
def takeInRanges : List (UInt8 × UInt8) → List UInt8 → List UInt8
  | (lo, hi) :: ranges, b :: bytes =>
    if lo ≤ b && b ≤ hi then b :: takeInRanges ranges bytes else []
  | _, _ => []

/-- The code point written by a lead byte and its continuation bytes. -/
def codePoint (lead : UInt8) (tail : List UInt8) : Nat :=
  let high : Nat := match tail.length with
    | 0 => lead.toNat
    | 1 => lead.toNat % 0x20
    | 2 => lead.toNat % 0x10
    | _ => lead.toNat % 0x08
  tail.foldl (fun n b => n * 0x40 + b.toNat % 0x40) high

/-- The units of a byte text. -/
def glyphs : List UInt8 → List Glyph
  | [] => []
  | lead :: rest =>
    match continuationRanges lead with
    | none => .bytes [lead] :: glyphs rest
    | some ranges =>
      let tail := takeInRanges ranges rest
      let unit := if tail.length = ranges.length then .char (Char.ofNat (codePoint lead tail))
        else .bytes (lead :: tail)
      unit :: glyphs (rest.drop tail.length)
  termination_by bytes => bytes.length

/-- The units of a text. -/
def ofChars (cs : List Char) : List Glyph := cs.map .char

/-- The character of a unit, if it is one. -/
def Glyph.char? : Glyph → Option Char
  | .char c => some c
  | .bytes _ => none

/-- The number of bytes of a unit. -/
def Glyph.size : Glyph → Nat
  | .char c => c.utf8Size
  | .bytes run => run.length

/-- The number of bytes of a list of units. -/
def byteCount : List Glyph → Nat
  | [] => 0
  | g :: gs => g.size + byteCount gs

/-- The text of a list of units, if all of them are characters. -/
def text? (gs : List Glyph) : Option String := (gs.mapM Glyph.char?).map String.ofList

/-- The text with a replacement character for each run of stray bytes. -/
def shown (gs : List Glyph) : String :=
  String.ofList (gs.map fun g => g.char?.getD (Char.ofNat 0xFFFD))

theorem shown_ofChars (cs : List Char) : shown (ofChars cs) = String.ofList cs := by
  simp [shown, ofChars, Function.comp_def, Glyph.char?]

end ComponentRegistry.Text
