import Untranslated.Script.Grammar.Statements

/-!
# Declarations

Functions and classes as statements, and what only dialects with types declare: enumerations,
interfaces, type names, namespaces and ambient declarations.
-/

namespace Untranslated.Script.Grammar

open Parse

variable (g : Grammar) (c : Context)

/-- A function declaration from the word `function` on; after `export default` it may have no
name. -/
def functionDeclaration (async needsName : Bool) : Parse Unit := do
  expectWord "function"
  let generator ← eat "*"
  if needsName || (← peek).isReference then identifier
  let _ ← functionRest g c async generator

/-- A function declaration that may begin with `async`. -/
def anyFunction (needsName : Bool) : Parse Unit := do
  let async ← eatWord "async"
  functionDeclaration g c async needsName

/-- The token begins a function declaration. -/
def seesFunction : Parse Bool := do
  if ← seesWord "function" then return true
  if ← seesWord "async" then ahead (do return (← seesWord "function") && !(← newline))
  else return false

/-! ### Declarations of types -/

/-- A member of an enumeration. -/
def enumMember : Parse Unit := do
  propertyName g c .plain (.refl true)
  if ← eat "=" then g (.assignment c.inside)

/-- An enumeration from its name on. -/
def enumRest : Parse Unit := do
  anyName
  expect openBrace
  commaSeparated closeBrace (enumMember g c)
  expect closeBrace

/-- An interface from its name on. -/
def interfaceRest : Parse Unit := do
  anyName
  optionalTypeParameters g c .group
  if ← eatWord "extends" then heritageTypes g c
  typeMembers g c

/-- The name of a type with its definition, from the name on. -/
def typeNameRest : Parse Unit := do
  anyName
  optionalTypeParameters g c .group
  expect "="
  typeInside g c
  expectEnd

/-- A namespace from its name on. -/
def namespaceRest : Parse Unit := do
  entityName
  block g c .module

/-- A module that is described but not written here, from its name on. -/
def ambientModuleRest : Parse Unit := do
  take
  if ← sees openBrace then block g c .module else expectEnd

/-- The declaration that `word` begins, from what follows it. Answers whether there is one;
where it is `certain`, what follows is not looked at. -/
def typeDeclaration (word : String) (certain : Bool) : Parse Bool := do
  let t ← peek
  let broken ← newline
  match word with
  | "abstract" =>
    if certain || (t.isWord "class" && !broken) then
      classRest g c true
      return true
  | "enum" =>
    if certain || t.isReference then
      enumRest g c
      return true
  | "interface" =>
    if certain || t.isReference then
      interfaceRest g c
      return true
  | "module" =>
    if certain || !broken then
      if t == .string then
        ambientModuleRest g c
        return true
      else if certain || t.isReference then
        namespaceRest g c
        return true
  | "namespace" =>
    if certain || t.isReference then
      namespaceRest g c
      return true
  | "type" =>
    if certain || (t.isReference && !broken) then
      typeNameRest g c
      return true
  | _ => return false
  return false

/-- The words that begin a declaration of types. -/
def typeDeclarationWords : List String :=
  ["abstract", "enum", "interface", "module", "namespace", "type"]

/-- The declaration after `declare`. Answers the kind of statement it makes, if there is one. -/
def ambientDeclaration : Parse (Option NodeKind) := do
  let ambient := { c with isAmbient := true }
  if ← seesWord "function" then
    functionDeclaration g ambient false true
    return some .group
  else if ← seesWord "class" then
    classRest g ambient true
    return some .group
  else if (← seesWord "const") && (← ahead (seesWord "enum")) then
    take
    take
    enumRest g ambient
    return some .group
  else if (← seesWord "const") || (← seesWord "var") || (← seesWord "let") then
    bindings g ambient
    return some .variableStatement
  else if ← seesWord "global" then
    ambientModuleRest g ambient
    return some .group
  else
    match ← peek with
    | .word s =>
      if typeDeclarationWords.contains s then
        take
        let _ ← typeDeclaration g ambient s true
        return some .group
      else return none
    | _ => return none

/-! ### Statements that begin with an expression -/

/-- An expression as a statement, a label, or a declaration that began like an expression. -/
def plainStatement : Parse Unit :=
  nodeOf do
    g (.expression c.inside)
    let name := match ← latest with
      | some (.leaf (.lexeme (.name s)) _) => s
      | _ => ""
    -- A name with a colon is a label.
    if name != "" && (← sees ":") then
      take
      body g c
      return .group
    if c.hasTypes then
      if name == "declare" then
        if let some kind ← ambientDeclaration g c then return kind
      if name == "global" && (← sees openBrace) then
        block g c .module
        return .group
      if ← typeDeclaration g c name false then return .group
    if ← eatEnd then return .expressionStatement
    -- An operator after a whole expression goes on with it.
    if (← peek).operator?.isNone then fail (.missingSign ";")
    g (.operators c.inside 0)
    return .expressionStatement

/-- Decorators before a class. Before anything else they decorate nothing. -/
def leadingDecorators : Parse Unit := do
  if ← sees "@" then
    let start ← place
    nodeOf do
      loop do
        if ← sees "@" then
          decorator g c
          return true
        else return false
      if (← seesWord "export") && !c.hasTypes then failAt .misplacedDecorator start
      if (← seesWord "class") || (← seesWord "export") || (← seesWord "abstract") then
        return .group
      else return .discarded

/-- Whether a word begins a declaration by what follows it. -/
def wordDeclares (word : String) : Parse Bool := do
  unless c.hasTypes do return false
  match word with
  | "interface" | "type" | "enum" => ahead (do return (← peek).isReference && !(← newline))
  | _ => return false

/-- The word declares resources that are released at the end of the block. -/
def seesResources : Parse Bool := do
  unless c.hasTypes do return false
  if ← seesWord "await" then
    ahead do
      if (← seesWord "using") && !(← newline) then ahead seesNameOnLine else return false
  else if ← seesWord "using" then ahead seesNameOnLine
  else return false

/-- A statement other than an import or export, after its decorators. -/
def innerStatement (level : Level) : Parse Unit := do
  let declares := level != .body
  if c.hasTypes && (← seesWord "const") && (← ahead (seesWord "enum")) then
    node .group do
      take
      take
      enumRest g c
  else if declares && (← seesResources c) then
    node .group do
      let _ ← eatWord "await"
      bindings g c
  else if (← seesWord "var") || (declares && (← seesVariables)) then
    node .variableStatement (bindings g c)
  else if ← seesFunction then node .group (anyFunction g c true)
  else if ← seesWord "class" then node .group (classRest g c true)
  else if ← sees openBrace then block g c .block
  else if ← sees ";" then take
  else
    match ← peek with
    | .word s =>
      if ← wordDeclares c s then
        node .group do
          take
          let _ ← typeDeclaration g c s true
      else
        if statementWords.contains s then node .group (wordStatement g c s)
        else plainStatement g c
    | _ => plainStatement g c

end Untranslated.Script.Grammar
