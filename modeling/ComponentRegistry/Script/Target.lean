import ComponentRegistry.Script.Parser

/-!
# Assignment targets

Which expressions can be assigned to, and which literals can be read as patterns.  A shorthand
member with a default is allowed only in a pattern, so reading one as a pattern settles it.
-/

namespace ComponentRegistry.Script

open Script.Parser

/-- The expression inside all parentheses and type operations. -/
def Expr.bare : Expr → Expr
  | .parens e => e.bare
  | .typed e => e.bare
  | e => e

/-- An expression that names a place: a variable or a property. -/
def Expr.isPlace : Expr → Bool
  | .name _ => true
  | .property => true
  | _ => false

def invalidTarget {α : Type} : Parser α := fault (.malformed "assignment target")

/-- Check that `e` names one place. -/
def simpleTarget : Expr → Parser Unit
  | .name _ => pure ()
  | .property => pure ()
  | .parens e =>
    match e with
    | .object _ => invalidTarget
    | .array _ _ => invalidTarget
    | e => simpleTarget e
  | .typed e => if e.bare.isPlace then pure () else invalidTarget
  | _ => invalidTarget

/-- The default at this position is part of a pattern. -/
def settleDefault (position : Nat) : Parser Unit :=
  modify fun s => { s with openDefaults := s.openDefaults.filter (· ≠ position) }

mutual

/-- Check that `e` can be assigned to. -/
def target : Expr → Parser Unit
  | .object members => targetMembers members
  | .array items comma => targetItems items comma
  | e => simpleTarget e

/-- A target that may carry a default. -/
def targetWithDefault : Expr → Parser Unit
  | .assign plain _ => noteIf !plain
  | e => target e

def targetMembers : List Member → Parser Unit
  | [] => pure ()
  | .shorthand position? :: more => do
    match position? with
    | some position => settleDefault position
    | none => pure ()
    targetMembers more
  | .keyed value :: more => do
    targetWithDefault value
    targetMembers more
  | .spread value :: more => do
    noteIf !more.isEmpty
    match value with
    | .object _ => note
    | .array _ _ => note
    | _ => pure ()
    target value
    targetMembers more
  | .method :: _ => invalidTarget

def targetItems : List Item → Bool → Parser Unit
  | [], _ => pure ()
  | .hole :: more, comma => targetItems more comma
  | .value e :: more, comma => do
    targetWithDefault e
    targetItems more comma
  | .spread e :: more, comma => do
    noteIf (!more.isEmpty || comma)
    target e
    targetItems more comma

end

end ComponentRegistry.Script
