import Untranslated.Script.Grammar.Subscripts

/-!
# Operands

What operators are applied to: primary expressions with their members and calls, `new`, markup,
parentheses and the arrow functions that begin with them. An arrow function can only begin
where an assignment may begin, which the flag `arrow` of a production says.
-/

namespace Untranslated.Script.Grammar

open Parse

variable (g : Grammar) (c : Context)

/-! ### Operands of binary operators -/

/-- A failure before a binary operator is mended: the operator takes what was read as its left
operand. -/
def mendOperand (p : Parse Unit) : Parse Unit :=
  mend (fun t => t.operator?.isSome) p

/-- An expression of binary operators, or an arrow function. -/
def binary : Parse Unit := do
  mendOperand (g (.unary c true))
  unless ← latestIs Tree.isArrow do g (.operators c 0)

/-- The parts of `a ? b : c` from the question mark on, after the condition. -/
def conditionalRest : Parse Unit :=
  wrap .operation do
    expect "?"
    g (.assignment { c with excludesIn := false, inConditional := true, colonFollows := true })
    expect ":"
    g (.assignment { c with inConditional := true, colonFollows := false })

/-- The rest of an assignment after what is assigned to. -/
def assignmentRest (start : List Char) : Parse Unit := do
  match ← peek with
  | .sign s =>
    if assignmentSigns.contains s then
      if ← latestIs Tree.refusesAssignment then failAt .invalidPattern start
      if s == "=" then expectPattern true start
      else if ← latestIs Tree.isDestructuring then failAt .invalidPattern start
      wrap .group do
        take
        g (.assignment c)
  | _ => return

/-! ### Parentheses and arrow functions -/

/-- What stands between parentheses. -/
structure ParenItems where
  count : Nat := 0
  hasAnnotation : Bool := false
  /-- Where the first spread item stands. -/
  spread : Option (List Char) := none
  /-- Where the first thing stands that no parameter can have. -/
  misfit : Option (List Char) := none

/-- An item between parentheses, which may turn out to be a parameter: what stands before a
question mark is read without it, since it may make a parameter optional. -/
def parenItem (items : ParenItems) : Parse ParenItems := do
  parameterModifiers c
  let spread ← eat "..."
  let start ← place
  if c.hasTypes && (← peek).isReference then
    binary g c
    unless spread || (← latestIs Tree.isArrow) do assignmentRest g c start
  else g (.assignment c)
  let misfit := ((← latest).bind (Tree.misfit? false)).map start.drop
  let mut annotated := false
  -- After a question mark these signs leave no room for a value.
  if c.hasTypes && (← sees "?") then
    if ← ahead (seesAny [",", ":", ")", "="]) then
      take
      annotated := true
    else if !spread then conditionalRest g c
  if c.hasTypes && (annotated || (← sees ":")) then
    annotated := true
    if let some there := misfit then failAt .invalidPattern there
    optionalAnnotation g c
    if ← eat "=" then g (.assignment c)
  return {
    count := items.count + 1
    hasAnnotation := items.hasAnnotation || annotated
    spread := items.spread.or (if spread then some start else none)
    misfit := items.misfit.or misfit }

/-- The items between parentheses, at most one for each character of `fuel`. -/
def parenItems : List Char → ParenItems → Parse ParenItems
  | [], items => pure items
  | _ :: fuel, items => do
    let t ← peek
    if t.isSign ")" || t == .endOfText then return items
    let items ← parenItem g c items
    if ← sees ")" then return items
    expect ","
    parenItems fuel items

/-- Parentheses and what stands between them. -/
def parenthesized : Parse ParenItems := do
  expect "("
  let here ← place
  let items ← parenItems g c.inside here {}
  expect ")"
  return items

/-- The arrow after parentheses, whose items become parameters, and its body. -/
def arrowAfter (async : Bool) (items : ParenItems) : Parse Unit := do
  expect "=>"
  if let some there := items.misfit then failAt .invalidPattern there
  arrowBody g c async

/-- In a branch of a conditional a colon after parentheses may be that of a return type: it is
if an arrow and its body follow, and if a colon follows them where the branch needs one. -/
def conditionalArrow (async : Bool) (items : ParenItems) : Parse Bool :=
  succeeds do
    returnType g c (.late .types) ":"
    arrowAfter g c async items
    if c.colonFollows then
      unless ← sees ":" do fail .unexpected

/-- The return type of an arrow function, if the arrow follows it. -/
def arrowReturnType : Parse Bool :=
  succeeds do
    returnType g c (.late .types) ":"
    unless ← sees "=>" do fail .unexpected

/-- What comes after the closing parenthesis if it ends parameters. Answers whether it does. -/
def arrowRest (arrow async : Bool) (start : List Char) (items : ParenItems) : Parse Bool := do
  if c.hasTypes && c.inConditional && (← sees ":") then
    if ← conditionalArrow g c async items then return true
  let typed ←
    if c.hasTypes && !c.colonFollows && (← sees ":") then arrowReturnType g c else pure false
  -- A type after a colon makes the items parameters even if no arrow follows.
  if items.hasAnnotation || typed || (← sees "=>") then
    if ← newline then failAt .misplacedLineBreak start
    unless arrow do failAt .misplacedArrow start
    arrowAfter g c async items
    return true
  return false

/-- The tree is an arrow function whose body is a block. -/
def isBlockArrow : Tree → Bool
  | .node .arrow parts =>
    match parts.getLast? with
    | some (.node .group (.leaf _ ['{'] :: _)) => true
    | _ => false
  | _ => false

/-- A binary operator right after an arrow function with a block is passed over with its
operands. -/
def arrowOperators : Parse Unit := do
  if (← latestIs isBlockArrow) && (← peek).operator?.isSome then g (.operators c 0)

/-- An expression in parentheses, or an arrow function that begins with them. -/
def parenOrArrow (arrow : Bool) : Parse Unit := do
  let start ← place
  nodeOf do
    let items ← parenthesized g c
    if ← arrowRest g c arrow false start items then return .arrow
    if items.count = 0 then failAt .emptyParentheses start
    match items.spread with
    | some there => failAt .misplacedSpread there
    | none => return .paren
  arrowOperators g c

/-- A call of a function named `async`, or an arrow function. -/
def asyncParenOrArrow (arrow : Bool) : Parse Unit := do
  let start ← place
  nodeOf do
    takeName
    let items ← node .arguments (parenthesized g c)
    if ← arrowRest g c arrow true start items then return .arrow else return .call false
  arrowOperators g c

/-- An arrow function from its type parameters on. -/
def genericArrow (async : Bool) : Parse Unit := do
  typeParameters g c (.late .types)
  parameters g (c.inFunction async false)
  optionalReturnType g c (.late .types)
  expect "=>"
  arrowBody g c async

/-! ### Primary expressions -/

/-- An identifier, or an arrow function whose only parameter it is. -/
def nameOrArrow (arrow : Bool) : Parse Unit := do
  let isAsync ← seesWord "async"
  identifier
  if arrow && isAsync && (← seesNameOnLine) then
    wrap .arrow do
      identifier
      expect "=>"
      arrowBody g c true
  else if arrow && (← sees "=>") && !(← newline) then
    wrap .arrow do
      take
      arrowBody g c false

/-- A class expression with its decorators. -/
def classExpression : Parse Unit :=
  node .definition do
    decorators g c .group
    classRest g c false

/-- The word can stand for a value here. Where there are types, so can words that only mean
something inside other functions. -/
def refersTo (word : String) : Bool :=
  word == "let" || (Token.word word).isReference ||
    (c.hasTypes && (word == "await" || (word == "yield" && !c.inGenerator)))

/-- A primary expression that begins with a word. -/
def wordExpression (arrow : Bool) (word : String) : Parse Unit := do
  if word == "this" then advance .this .normal (.refl true)
  else if ["null", "true", "false"].contains word then take
  else if word == "function" then node .definition (functionExpression g c false)
  else if word == "class" then classExpression g c
  else if word == "async" && (← ahead (do return (← seesWord "function") && !(← newline))) then
    node .definition do
      take
      functionExpression g c true
  else if word == "async" && arrow && c.hasTypes && (← ahead (sees "<")) then
    unless ← succeeds (node .arrow do take; genericArrow g c true) do nameOrArrow g c arrow
  else if word == "async" && arrow && (← ahead (do return (← sees "(") && !(← newline))) then
    asyncParenOrArrow g c arrow
  else if refersTo c word then nameOrArrow g c arrow
  else fail .unexpected

/-- A primary expression. -/
def primary (arrow : Bool) : Parse Unit := do
  match ← peek with
  | .word s => wordExpression g c arrow s
  | .string => advance .string .normal (.refl true)
  | .number => take
  | .sign s =>
    if s == "(" then parenOrArrow g c arrow
    else if s == "[" then arrayLiteral g c
    else if s == openBrace then objectLiteral g c
    else if s == "\x60" then template g c false
    else if s == "/" || s == "/=" then
      -- A slash where an operand is due begins a regex.
      reread regexToken readsCode_regexToken
      if (← peek) == .regex then advance .regex .normal (.refl true) else fail .unexpected
    else if s == "@" then classExpression g c
    else if s == "#" then
      node .group do
        take
        anyName
      unless ← seesWord "in" do fail .unexpected
    else fail .unexpected
  | _ => fail .unexpected

/-! ### Members, calls and `new` -/

/-- `new` with what it is applied to. Arguments are its own only if they follow at once. -/
def newExpression : Parse Unit := do
  nodeOf do
    take
    if ← eat "." then
      expectWord "target"
      return .group
    let start ← place
    g (.constructor c)
    if ← latestIs Tree.isChain then failAt .misplacedChain start
    if c.hasTypes && (← seesAngle) then
      -- Without parentheses after them these are no type arguments but comparisons.
      let _ ← succeeds do
        typeArguments g c
        unless ← sees "(" do fail (.missingSign "(")
    if ← sees "(" then arguments g c
    return .new
  subscripts g c true false

/-- The production of `Symbol.constructor`: an operand without calls of its own. -/
def constructor (arrow : Bool) : Parse Unit := do
  if ← seesWord "new" then newExpression g c
  else if ← seesWord "super" then superExpression g c true
  else if ← seesWord "import" then importExpression g c true
  else
    primary g c arrow
    unless ← latestIs Tree.isArrow do subscripts g c true false

/-- The tree is `new` without arguments. -/
def isBareNew : Tree → Bool
  | .node .new parts => !parts.any fun
    | .node .arguments _ => true
    | _ => false
  | _ => false

/-- The production of `Symbol.leftHand`. -/
def leftHand (arrow : Bool) : Parse Unit := do
  if c.dialect.hasMarkup && (← sees "<") then g (.element c .normal)
  else if ← seesWord "super" then superExpression g c false
  else if ← seesWord "import" then importExpression g c false
  else
    constructor g c arrow
    unless ← latestIs (fun t => t.isArrow || isBareNew t) do subscripts g c false false

end Untranslated.Script.Grammar
