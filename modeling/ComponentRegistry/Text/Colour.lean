/-!
# Coloured text

Text between the escape sequences by which terminals switch a style on and all styles off.
-/

namespace ComponentRegistry.Text

inductive Colour where
  | red
  | green
  | yellow
  deriving DecidableEq, Repr

/-- The number of a colour of letters. -/
def Colour.code : Colour → Nat
  | .red => 31
  | .green => 32
  | .yellow => 33

inductive Style where
  | plain (c : Colour)
  | bold (c : Colour)
  /-- Bold without a colour. -/
  | strong
  | dimmed
  deriving DecidableEq, Repr

namespace Style

/-- The numbers that switch a style on. -/
def codes : Style → String
  | .plain c => toString c.code
  | .bold c => s!"1;{c.code}"
  | .strong => "1"
  | .dimmed => "2"

/-- The character that begins an escape sequence. -/
def escape : String := String.singleton (Char.ofNat 27)

def paint (s : Style) (text : String) : String :=
  s!"{escape}[{s.codes}m{text}{escape}[0m"

end Style

end ComponentRegistry.Text
