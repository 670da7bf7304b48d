import Untranslated.Script.Grammar.Operators

/-!
# Statements

Statements and the declarations of values. Errors a reader can pass over, such as a missing
semicolon after variables, are passed over.
-/

namespace Untranslated.Script.Grammar

open Parse

variable (g : Grammar) (c : Context)

/-! ### Variables -/

/-- The next token lets a word before it declare variables. -/
def seesBinding : Parse Bool :=
  ahead do
    let t ← peek
    return t.isSign "[" || t.isSign openBrace || t.isFreeWord

/-- Declarators after `var`, `let`, `const` or `using`. -/
def declarators (isConst inLoopHead : Bool) : Parse Unit :=
  loop do
    if ← sees ";" then return false
    declarator g c isConst inLoopHead
    eat ","

/-- After variables: the end of the statement. Where it is missing an expression and all up to
the next end is given up. -/
def endVariables : Parse Unit := do
  unless ← eatEnd do
    node .discarded do
      mend (fun _ => true) (g (.expression c))
      -- A lexeme that cannot be read is not passed over: it is refused as the next statement.
      loop do
        if ← atEnd then return false
        if let .bad _ := ← peek then return false
        take
        return true
    let _ ← eat ";"

/-- Variables with the word that declares them, to the end of the statement. -/
def bindings : Parse Unit :=
  node .bindings do
    let isConst ← seesWord "const"
    take
    declarators g c isConst false
    endVariables g c

/-- Whether variables are declared here. -/
def seesVariables : Parse Bool := do
  return (← seesWord "var") || (← seesWord "const") || ((← seesWord "let") && (← seesBinding))

/-! ### Statements made of other statements -/

/-- The statement that another one governs. -/
def body : Parse Unit :=
  g (.statement { c with excludesIn := false, colonFollows := false } .body)

/-- An expression in parentheses. -/
def condition : Parse Unit := do
  expect "("
  g (.expression c.inside)
  expect ")"

/-- `if` with its branches. Without a closing parenthesis the statement ends there. -/
def ifStatement : Parse Unit := do
  take
  expect "("
  g (.expression c.inside)
  if ← eat ")" then
    body g c
    if ← eatWord "else" then body g c

/-- `do` with its body, which counts after the condition. -/
def doStatement : Parse Unit := do
  take
  node (.late .body) (body g c)
  expectWord "while"
  condition g c
  let _ ← eatEnd

/-- The cases of `switch`. -/
def switchCases : Parse Unit := do
  expect openBrace
  loop do
    let isCase ← seesWord "case"
    unless isCase || (← seesWord "default") do return false
    take
    if isCase then g (.expression c.inside)
    expect ":"
    loop do
      let t ← peek
      if t.isWord "case" || t.isWord "default" || t.isSign closeBrace || t == .endOfText then
        return false
      g (.statement c .block)
      return true
    return true
  expect closeBrace

/-- `catch` and `finally` after `try`, as far as they are there. -/
def handlers : Parse Unit := do
  if ← eatWord "catch" then
    if ← eat "(" then
      g (.pattern c)
      optionalAnnotation g c
      expect ")"
    block g c .block
  if ← eatWord "finally" then block g c .block

/-- What follows the head of a loop over elements. -/
def overElements : Parse Unit := do
  let isOf ← seesWord "of"
  take
  if isOf then g (.assignment c.inside) else g (.expression c.inside)

/-- The test and the step of a loop, after the first semicolon. -/
def testAndStep : Parse Unit := do
  unless ← eat ";" do
    g (.expression c.inside)
    let _ ← eat ";"
  unless ← sees ")" do g (.expression c.inside)

/-- The tree is the word that declares resources, perhaps awaited. -/
def isResourceWord : Tree → Bool
  | .leaf (.lexeme (.name "using")) _ => true
  | .node .await parts =>
    match parts.getLast? with
    | some (.leaf (.lexeme (.name "using")) _) => true
    | _ => false
  | _ => false

/-- The head of a `for` loop between its parentheses. -/
def forHead : Parse Unit := do
  let head := { c with excludesIn := true }
  let seesEach : Parse Bool := do return (← seesWord "of") || (← seesWord "in")
  if ← seesVariables then
    node .bindings do
      let isConst ← seesWord "const"
      take
      declarators g head isConst true
    if ← seesEach then overElements g c
    else
      expect ";"
      testAndStep g c
  else if ← eat ";" then testAndStep g c
  else
    let start ← place
    g (.expression head)
    -- `using` was read as a name, so the name it declares is still to come.
    let declares ← latestIs isResourceWord
    if declares && c.hasTypes && !(← seesWord "of") && (← ahead seesEach) then identifier
    if ← seesEach then
      expectPattern true start
      overElements g c
    else
      expect ";"
      testAndStep g c

/-- A `for` loop. -/
def forStatement : Parse Unit := do
  take
  let _ ← eatWord "await"
  expect "("
  forHead g c
  expect ")"
  body g c

/-- The words that begin a statement of their own. -/
def statementWords : List String :=
  ["break", "continue", "debugger", "do", "for", "if", "return", "throw", "switch", "try", "catch",
   "finally", "while", "with"]

/-- The statement that one of these words begins. -/
def wordStatement (word : String) : Parse Unit := do
  match word with
  | "break" | "continue" =>
    take
    unless ← eatEnd do
      identifier
      expectEnd
  | "debugger" =>
    take
    expectEnd
  | "do" => doStatement g c
  | "for" => forStatement g c
  | "if" => ifStatement g c
  | "return" =>
    take
    unless ← eatEnd do
      g (.expression c.inside)
      expectEnd
  | "throw" =>
    take
    if ← newline then fail .misplacedLineBreak
    g (.expression c.inside)
    expectEnd
  | "switch" =>
    take
    condition g c
    switchCases g c
  | "try" =>
    take
    block g c .block
    handlers g c
  | "catch" | "finally" => node .discarded (mend (fun _ => true) (handlers g c))
  | _ =>
    take
    condition g c
    body g c

end Untranslated.Script.Grammar
