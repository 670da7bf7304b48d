import Untranslated.Script.Cursor
import Untranslated.Script.Dialect

/-!
# Symbols of the grammar

The grammar is a function from symbols to reading steps. Productions take the grammar as an
argument for the symbols they go through, so each is written without recursion.
-/

namespace Untranslated.Script

/-- What the place of a production lets it read. -/
structure Context where
  dialect : Dialect
  /-- `in` is no operator here. -/
  excludesIn : Bool := false
  /-- Inside a generator, `yield` is an operator. -/
  inGenerator : Bool := false
  inAsync : Bool := false
  /-- Inside a branch of a conditional. -/
  inConditional : Bool := false
  /-- Inside its first branch, where a colon ends the branch. -/
  colonFollows : Bool := false
  /-- Inside a declaration without values. -/
  isAmbient : Bool := false
  /-- A conditional type needs parentheses here. -/
  excludesConditionalTypes : Bool := false

namespace Context

/-- The dialect has type annotations. -/
def hasTypes (c : Context) : Bool :=
  c.dialect.hasTypes

/-- The context inside brackets, where all operators count. -/
def inside (c : Context) : Context :=
  { c with excludesIn := false, colonFollows := false }

/-- The context of a function's parameters and body. -/
def inFunction (c : Context) (async generator : Bool) : Context :=
  { c with
    excludesIn := false, inConditional := false, colonFollows := false
    inAsync := async, inGenerator := generator }

/-- The context of a type. -/
def inType (c : Context) : Context :=
  { c with excludesConditionalTypes := false }

end Context

/-- Where a statement stands. -/
inductive Level
  /-- Directly in a module or namespace, where imports and exports may stand. -/
  | module
  /-- In a block, where declarations may stand. -/
  | block
  /-- As the body of another statement. -/
  | body
  deriving DecidableEq

/-- The symbols through which the grammar is recursive. -/
inductive Symbol
  | expression (c : Context)
  | assignment (c : Context)
  /-- An operand with the operators before it; `arrow` says that an arrow function may begin
  here. -/
  | unary (c : Context) (arrow : Bool)
  /-- Operators that bind tighter than `bound`, after an operand. -/
  | operators (c : Context) (bound : Nat)
  /-- What a call may be made of, with its members and calls. -/
  | leftHand (c : Context)
  /-- What `new` is applied to. -/
  | constructor (c : Context)
  /-- The members and calls after the name of a decorator. -/
  | decoration (c : Context)
  /-- A markup element, and how the lexeme after it is read. -/
  | element (c : Context) (after : Mode)
  | type (c : Context)
  /-- A name or a destructuring pattern. -/
  | pattern (c : Context)
  | statement (c : Context) (level : Level)

/-- A way to read each symbol. -/
abbrev Grammar : Type :=
  Symbol → Parse Unit

namespace Parse

/-- The token is taken as an identifier. -/
def takeName : Parse Unit := do
  match ← peek with
  | .word s => advance (.name s) .normal (.refl true)
  | _ => fail .unexpected

/-- A word that is not reserved is taken as an identifier. -/
def identifier : Parse Unit := do
  if (← peek).isFreeWord then takeName else fail .unexpected

/-- Any word is taken as an identifier. -/
def anyName : Parse Unit := do
  if (← peek).isAnyWord then takeName else fail .unexpected

/-- The token is one of the signs. -/
def seesAny (signs : List String) : Parse Bool := do
  let t ← peek
  return signs.any t.isSign

/-- The token is a word that is not reserved, on the same line. -/
def seesNameOnLine : Parse Bool := do
  let t ← peek
  let broken ← newline
  return t.isReference && !broken

/-- The token opens an angle bracket, alone or doubled. -/
def seesAngle : Parse Bool :=
  seesAny ["<", "<<"]

/-- The items of a list up to the closing sign, with commas between them and perhaps one after
the last. -/
def commaSeparated (close : String) (item : Parse Unit) : Parse Unit := do
  loop do
    let t ← peek
    if t.isSign close || t == .endOfText then return false
    item
    if ← sees close then return false
    expect ","
    return true

/-- The latest finished part answers to `p`. -/
def latestIs (p : Tree → Bool) : Parse Bool := do
  return (← latest).any p

end Parse

end Untranslated.Script
