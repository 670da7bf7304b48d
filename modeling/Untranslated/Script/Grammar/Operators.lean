import Untranslated.Script.Grammar.Operands

/-!
# Operators

From operators before and after an operand to binary operators, conditionals and assignments.
-/

namespace Untranslated.Script.Grammar

open Parse

variable (g : Grammar) (c : Context)

/-- `await` with its operand, or as a name where no operand can follow. -/
def awaitExpression : Parse Unit :=
  nodeOf do
    take
    if ← sees "*" then fail .unexpected
    if !c.inAsync && (← seesAny [")", "]", ";", ","]) then return .group
    g (.unary c false)
    return .await

/-- A type in angle brackets asserted of an operand, which comes first. -/
def typeAssertion : Parse Unit :=
  node .group do
    splitAngle
    expect "<"
    unless ← eatWord "const" do node (.late .types) (typeInside g c)
    splitAngle
    expect ">"
    g (.unary c false)

/-- An operand with the operator before it. A failure inside is mended. -/
def unaryOperation : Parse Unit :=
  node .operation do
    take
    mend (fun _ => true) (g (.unary c false))

/-- An operand that `++` or `--` may follow on the same line. -/
def stepped (arrow : Bool) : Parse Unit := do
  leftHand g c arrow
  unless ← latestIs Tree.isArrow do
    if (← seesAny ["++", "--"]) && !(← newline) then wrap .operation take

/-- The production of `Symbol.unary`. -/
def unary (arrow : Bool) : Parse Unit := do
  match ← peek with
  | .sign s =>
    -- Where there is markup the bracket begins an element.
    if s == "<" && c.dialect == .typed then typeAssertion g c
    else if s == "++" || s == "--" then
      node .operation do
        take
        g (.unary c false)
    else if ["+", "-", "~", "!"].contains s then unaryOperation g c
    else stepped g c arrow
  | .word s =>
    if ["delete", "void", "typeof"].contains s then unaryOperation g c
    else if s == "await" then awaitExpression g c
    else stepped g c arrow
  | _ => stepped g c arrow

/-- The production of `Symbol.operators`. -/
def operators (bound : Nat) : Parse Unit :=
  loop do
    let t ← peek
    let broken ← newline
    -- An assertion binds like a comparison, a check of a type tighter than all operators.
    if c.hasTypes && !broken && bound < 7 && t.isWord "as" then
      wrap .group do
        take
        unless ← eatWord "const" do typeInside g c
      return true
    if c.hasTypes && !broken && t.isWord "satisfies" then
      wrap .group do
        take
        typeInside g c
      return true
    match t.operator? with
    | none => return false
    | some s =>
      let tightness := (precedence? s).getD 0
      if tightness ≤ bound || (s == "in" && c.excludesIn) then return false
      wrap .operation do
        take
        g (.unary c false)
        -- Only a power takes another one of its kind as its right operand.
        g (.operators c (if s == "**" then tightness - 1 else tightness))
      return true

/-- `yield` with its operand, if one follows on the same line. -/
def yieldExpression : Parse Unit :=
  node .definition do
    take
    let t ← peek
    let ends ← atEnd
    let starts := match t with
      | .word s => !(["in", "instanceof", "of", "as", "satisfies"].contains s)
      | .sign s => ["(", "[", openBrace, "\x60", "+", "-", "!", "~", "++", "--", "<", "@", "#", "*",
          "/", "/="].contains s
      | .endOfText => false
      | _ => true
    if !ends && starts then
      let _ ← eat "*"
      g (.assignment c)

/-- The token begins the type parameters of an arrow function. Where there is markup this takes
a comma, a default or a bound after the first of them: without one the bracket begins an element,
and a script in which it does not is refused. -/
def seesArrowTypeParameters : Parse Bool := do
  unless c.hasTypes && (← sees "<") do return false
  ahead do
    unless c.dialect.hasMarkup do return (← peek).isAnyWord
    let _ ← eatWord "const"
    unless (← peek).isAnyWord do return false
    take
    if ← eatWord "extends" then return !(← seesAny ["=", ">", "/"])
    else seesAny [",", "="]

/-- The production of `Symbol.assignment`. -/
def assignment : Parse Unit := do
  let start ← place
  if ← seesArrowTypeParameters c then
    -- Markup and assertions begin with the same bracket, so this is only tried.
    let generic ← succeeds <| node .arrow do
      let inner := { c with colonFollows := false }
      typeParameters g inner (.late .types)
      g (.unary inner true)
      unless ← latestIs Tree.isArrow do fail (.missingSign "(")
      regroup Tree.arrowParts Tree.leavesAll_arrowParts
    if generic then return
  if c.inGenerator && (← seesWord "yield") then yieldExpression g c
  else
    binary g c
    if ← latestIs Tree.isArrow then return
    if ← sees "?" then conditionalRest g c
    -- An equals sign after an operation belongs to none of its operands.
    let isOperation ← latestIs fun
      | .node .operation _ => true
      | _ => false
    unless isOperation do assignmentRest g c start

/-- The production of `Symbol.expression`: assignments with commas between them. -/
def expression : Parse Unit := do
  g (.assignment c)
  if ← sees "," then
    wrap .group <| loop do
      if ← eat "," then
        g (.assignment c)
        return true
      else return false

end Untranslated.Script.Grammar
