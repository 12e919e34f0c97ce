/-!
# What the parser keeps of a source file

Of an expression only the shape is kept that decides whether it can be assigned to; of a statement
only what it says about the module: what it imports, what it exports, and which functions it
declares.
-/

namespace ComponentRegistry.Script

mutual

/-- The shape of an expression. -/
inductive Expr where
  | name (n : String)
  /-- A property of a value, by name or by index. -/
  | property
  | object (members : List Member)
  /-- The flag says that a comma follows the last element. -/
  | array (items : List Item) (comma : Bool)
  /-- An assignment; the flag says that its operator is `=`. -/
  | assign (plain : Bool) (target : Expr)
  | parens (inner : Expr)
  /-- An expression with a type laid on it. -/
  | typed (inner : Expr)
  /-- A unary operation, which may not be the base of a power. -/
  | unary
  /-- An operation by `??`. -/
  | coalesce
  /-- An operation by `&&` or `||`. -/
  | logical
  /-- A sequence with commas. -/
  | sequence
  | other

/-- A member of an object literal. -/
inductive Member where
  /-- A name alone, maybe with a default; the default's position identifies it. -/
  | shorthand (default? : Option Nat)
  | keyed (value : Expr)
  | spread (value : Expr)
  | method

/-- An element of an array literal. -/
inductive Item where
  | hole
  | value (e : Expr)
  | spread (e : Expr)

end

instance : Inhabited Expr := ⟨.other⟩

/-- A statement at the top of a file. -/
inductive Statement where
  | importFrom (source : String) (typeOnly : Bool)
  /-- Names passed on from another file. -/
  | exportFrom (source : String)
  /-- A list of local names that are exported. -/
  | exportNames (locals : List String)
  /-- A function declared where it is exported. -/
  | exportFunction (name : String)
  /-- A default export that is a name of this file. -/
  | exportDefaultName (name : String)
  | function (name : String)
  | other
  deriving DecidableEq, Repr

/-- A source file that has been parsed. -/
abbrev Program := List Statement

end ComponentRegistry.Script
