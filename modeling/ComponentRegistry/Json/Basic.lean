import ComponentRegistry.KeyMap
import ComponentRegistry.Decimal.Shortest

/-!
# JSON values

Objects keep their members in the order of their keys, each key once.  A number is an integer when
it is written as one and fits a 64-bit word, signed or unsigned; any other is a double, kept as its
bits.
-/

namespace ComponentRegistry

inductive JsonNumber where
  | integer (n : Int)
  | double (bits : UInt64)
  deriving DecidableEq, Repr

/-- How doubles are written: plain from `0.00001` up to sixteen digits before the point. -/
def JsonNumber.layout : Decimal.Layout := ⟨-5, 15⟩

def JsonNumber.text : JsonNumber → String
  | .integer n => toString n
  | .double bits => (Decimal.Double.ofBits bits).text layout

inductive Json where
  | null
  | bool (b : Bool)
  | number (n : JsonNumber)
  | string (s : String)
  | array (items : List Json)
  | object (members : List (String × Json))
  deriving Repr

namespace Json

/-- The object of these members; a later one replaces an earlier one of its key. -/
def ofMembers (members : List (String × Json)) : Json :=
  .object (members.foldl (fun acc m => insertEntry m.1 m.2 acc) [])

/-- The member of an object. -/
def member? (key : String) : Json → Option Json
  | .object members => entryValue? key members
  | _ => none

def string? : Json → Option String
  | .string s => some s
  | _ => none

def items? : Json → Option (List Json)
  | .array items => some items
  | _ => none

def members? : Json → Option (List (String × Json))
  | .object members => some members
  | _ => none

end Json

end ComponentRegistry
