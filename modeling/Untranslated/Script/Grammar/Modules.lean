import Untranslated.Script.Grammar.Declarations

/-!
# Imports and exports

The statements that may stand only directly in a module or namespace.
-/

namespace Untranslated.Script.Grammar

open Parse

variable (g : Grammar) (c : Context)

/-! ### Names of what is imported and exported -/

/-- A name or a string. -/
def moduleName : Parse Unit := do
  if (← peek) == .string then take else anyName

/-- An imported name and perhaps the local one. Of the reserved words `default` may stand alone. -/
def importedName : Parse Unit := do
  let start ← place
  let isString := (← peek) == .string
  let word ← wordSeen
  moduleName
  if ← eatWord "as" then identifier
  else if isString || word.any (fun s => reservedWords.contains s && s != "default") then
    failAt .unexpected start

/-- The second word of what may be `type name`; the words `type as` alone import a name. -/
def afterTypeAs (rest : Parse Unit) : Parse Unit := do
  take
  if (← peek).isAnyWord then
    let isAs ← seesWord "as"
    anyName
    if isAs && (← peek).isAnyWord then anyName
  else rest

/-- An item of an import or export list, which the word `type` may precede. -/
def listItem (item : Parse Unit) : Parse Unit := do
  let isType := c.hasTypes && (← seesWord "type")
  if isType && (← ahead (do return (← peek).isAnyWord)) then
    take
    if ← seesWord "as" then afterTypeAs (pure ()) else item
  else item

/-- The module a statement takes from: its name and attributes, and the end of the statement. -/
def moduleSource : Parse Unit := do
  if (← peek) == .string then take else fail .unexpected
  if c.hasTypes && !(← newline) then
    if (← seesWord "with") || (← seesWord "assert") then
      take
      objectLiteral g c
  expectEnd

/-- What an `import name = …` stands for. -/
def importTarget : Parse Unit := do
  expect "="
  if (← seesWord "require") && (← ahead (sees "(")) then
    take
    take
    if (← peek) == .string then take else fail .unexpected
    expect ")"
  else entityName
  expectEnd

/-! ### Imports -/

/-- The names in braces, or the one name for all, that an import binds. -/
def importedNames : Parse Unit := do
  if ← eat "*" then
    expectWord "as"
    identifier
  else if ← eat openBrace then
    commaSeparated closeBrace (listItem c importedName)
    expect closeBrace

/-- An import declaration from its first name on. -/
def importClause : Parse NodeKind := do
  if (← peek).isReference then
    let isType := c.hasTypes && (← seesWord "type")
    let isPhase := (← seesWord "source") || (← seesWord "defer")
    identifier
    let opens ← seesAny [openBrace, "*"]
    if !((isType || isPhase) && opens) then
      if (isType || isPhase) && (← peek).isReference then
        -- The word was a modifier unless the name after it is the `from` of the statement.
        let isFrom ← seesWord "from"
        if !isFrom || (← ahead (seesWord "from")) then identifier
        else if isType && (← ahead (sees "=")) then anyName
      if c.hasTypes && (← sees "=") then
        importTarget
        return .importEquals
      unless ← seesWord "from" do expect ","
  importedNames c
  expectWord "from"
  moduleSource g c
  return .importDeclaration

/-- An import. -/
def importStatement : Parse Unit := do
  if ← ahead (seesAny ["(", "."]) then
    node .expressionStatement do
      g (.expression c.inside)
      let _ ← eatEnd
  else
    nodeOf do
      take
      if (← peek) == .string then
        moduleSource g c
        return .importDeclaration
      else importClause g c

/-! ### Exports -/

/-- An exported name and perhaps the name it is exported under. -/
def exportedName : Parse Unit := do
  moduleName
  if ← eatWord "as" then moduleName

/-- The source of a re-export. -/
def exportSource : Parse Unit := do
  expectWord "from"
  moduleSource g c

/-- Names that are exported, perhaps out of another module. -/
def exportedNames : Parse NodeKind := do
  if ← eat "*" then
    if ← eatWord "as" then moduleName
    exportSource g c
    return .reExport
  expect openBrace
  commaSeparated closeBrace (listItem c exportedName)
  expect closeBrace
  if ← seesWord "from" then
    exportSource g c
    return .reExport
  let _ ← eatEnd
  return .group

/-- What is exported by default. -/
def exportedDefault : Parse Unit := do
  decorators g c .group
  let isAbstract := c.hasTypes && (← seesWord "abstract") && (← ahead (seesWord "class"))
  if isAbstract then take
  if ← seesWord "class" then classRest g c false
  else if c.hasTypes && (← seesWord "interface") then
    take
    interfaceRest g c
  else if ← seesFunction then anyFunction g c false
  else
    g (.assignment c.inside)
    expectEnd

/-- The declaration that is exported, if there is one. -/
def exportedDeclaration : Parse (Option NodeKind) := do
  decorators g c .group
  if ← seesWord "class" then
    classRest g c true
    return some .group
  else if ← seesFunction then
    anyFunction g c true
    return some .group
  else if c.hasTypes && (← seesWord "const") && (← ahead (seesWord "enum")) then
    take
    take
    enumRest g c
    return some .group
  else if ← seesVariables then
    bindings g c
    return some .exportedVariables
  else return none

/-- An exported declaration that only dialects with types have. -/
def typedExport : Parse (Option NodeKind) := do
  if ← eatWord "declare" then
    if let some kind ← ambientDeclaration g c then
      return some (if kind == .variableStatement then .exportedVariables else kind)
  if let some word ← wordSeen then
    if typeDeclarationWords.contains word then
      let declared ← succeeds do
        take
        let _ ← typeDeclaration g c word true
      if declared then return some .group
  if ← eatWord "import" then
    let _ ← eatTypeWord
    anyName
    importTarget
    return some .importEquals
  else if ← eat "=" then
    g (.expression c.inside)
    expectEnd
    return some .group
  else if ← eatWord "as" then
    expectWord "namespace"
    anyName
    expectEnd
    return some .group
  else return none
where
  eatTypeWord : Parse Bool := do
    if (← seesWord "type") && (← ahead (do return (← peek).isAnyWord)) then
      take
      return true
    else return false

/-- An export. -/
def exportStatement : Parse Unit :=
  nodeOf do
    take
    if c.hasTypes then
      if let some kind ← typedExport g c then return kind
    let isType ← if c.hasTypes then eatWord "type" else pure false
    unless isType do
      if ← eatWord "default" then
        exportedDefault g c
        return .group
      if let some kind ← exportedDeclaration g c then return kind
    exportedNames g c

/-- The production of `Symbol.statement`. -/
def statement (level : Level) : Parse Unit := do
  leadingDecorators g c
  let isImport ← seesWord "import"
  if isImport && (level == .module || (← ahead (seesAny ["(", "."]))) then importStatement g c
  else if ← seesWord "export" then
    if level == .module then exportStatement g c else fail .misplacedExport
  else if isImport then fail .misplacedExport
  else innerStatement g c level

end Untranslated.Script.Grammar
