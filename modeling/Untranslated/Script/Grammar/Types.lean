import Untranslated.Script.Grammar.Basic

/-!
# Types

Type annotations, type parameters and arguments, and the members of object types. A string
that names a member of an object type is read as an expression. Where functions are described
their parameters come before their type parameters, whatever stands first.
-/

namespace Untranslated.Script.Grammar

open Parse

variable (g : Grammar) (c : Context)

/-- A type; conditional types are allowed again. -/
def typeInside : Parse Unit :=
  g (.type c.inType)

/-- The types between angle brackets. -/
def angled (item : Parse Unit) : Parse Unit := do
  splitAngle
  expect "<"
  loop do
    splitAngle
    let t ← peek
    if t.isSign ">" || t == .endOfText then return false
    item
    splitAngle
    if ← sees ">" then return false
    expect ","
    return true
  splitAngle
  expect ">"

/-- Type arguments. -/
def typeArguments : Parse Unit :=
  node .typeArguments (angled (typeInside g c))

/-- Type arguments if there are any on this line. -/
def optionalTypeArguments : Parse Unit := do
  if (← seesAngle) && !(← newline) then typeArguments g c

/-- A modifier of a type parameter: `const`, `in` and `out` before a name. -/
def typeParameterModifiers : Parse Unit :=
  loop do
    let t ← peek
    let modifier := t.isWord "const" || t.isWord "in" || t.isWord "out"
    if modifier && (← ahead (do return (← peek).isAnyWord)) then
      take
      return true
    else return false

/-- Type parameters as a node of a kind. -/
def typeParameters (kind : NodeKind) : Parse Unit :=
  node kind <| angled do
    typeParameterModifiers
    identifier
    if ← eatWord "extends" then typeInside g c
    if ← eat "=" then typeInside g c

/-- Type parameters as a node of a kind, if there are any. -/
def optionalTypeParameters (kind : NodeKind) : Parse Unit := do
  if c.hasTypes && (← seesAngle) then typeParameters g c kind

/-- A colon and a type. -/
def typeAfterColon : Parse Unit := do
  expect ":"
  typeInside g c

/-- A colon and a type, if there is a colon. -/
def optionalAnnotation : Parse Unit := do
  if c.hasTypes && (← sees ":") then typeAfterColon g c

/-- A type or a type predicate after the sign that returns it, as a node of a kind. -/
def returnType (kind : NodeKind) (sign : String) : Parse Unit :=
  node kind do
    expect sign
    if (← seesWord "asserts") && (← ahead seesNameOnLine) then
      take
      anyName
      if (← seesWord "is") && !(← newline) then
        take
        typeInside g c
    else if (← peek).isReference && (← ahead (do return (← seesWord "is") && !(← newline))) then
      anyName
      take
      typeInside g c
    else typeInside g c

/-- A return type after a colon as a node of a kind, if there is a colon. -/
def optionalReturnType (kind : NodeKind) : Parse Unit := do
  if c.hasTypes && (← sees ":") then returnType g c kind ":"

/-! ### Names -/

/-- The name of a property. A string is read as `text`. -/
def propertyName (text : Lexeme) (htext : isCode text .normal = true) : Parse Unit := do
  match ← peek with
  | .word s => advance (.name s) .normal (.refl true)
  | .string => advance text .normal htext
  | .number => take
  | .sign "[" =>
    node .group do
      take
      g (.assignment c.inside)
      loop do
        if ← eat "," then
          g (.assignment c.inside)
          return true
        else return false
      expect "]"
  | _ => fail .unexpected

/-- Names with dots between them. -/
def entityName : Parse Unit := do
  node .group do
    anyName
    loop do
      if ← eat "." then
        anyName
        return true
      else return false

/-! ### Object types -/

/-- What follows lets the word before it be a modifier. -/
def modifierMayPrecede : Parse Bool := do
  if ← newline then return false
  let t ← peek
  return t.isAnyWord || t == .string || t == .number ||
    ["[", openBrace, "*", "...", "#"].any t.isSign

/-- One of the words is taken if it is a modifier here. -/
def eatModifier (words : List String) : Parse Bool := do
  match ← peek with
  | .word s =>
    if words.contains s && (← ahead modifierMayPrecede) then
      take
      return true
    else return false
  | _ => return false

/-- The modifiers before a parameter. -/
def parameterModifiers : Parse Unit := do
  if c.hasTypes then
    loop (eatModifier ["public", "protected", "private", "readonly", "override"])

/-- The parameters of a signature up to the closing parenthesis: names and patterns without
values. -/
def signatureParameters : Parse Unit := do
  commaSeparated ")" do
    parameterModifiers c
    let _ ← eat "..."
    if ← seesWord "this" then take else g (.pattern c)
    let _ ← eat "?"
    optionalAnnotation g c
  expect ")"

/-- A signature of an object type from its type parameters on. What it returns comes before its
type parameters. -/
def signature : Parse Unit := do
  optionalTypeParameters g c (.late .types)
  expect "("
  signatureParameters g c
  if ← sees ":" then returnType g c (.late .body) ":"

/-- A member of an object type ends with a comma or as a statement does. -/
def memberEnd : Parse Unit := do
  unless ← eat "," do expectEnd

/-- The token begins an index signature. -/
def seesIndexSignature : Parse Bool := do
  if ← sees "[" then
    ahead do
      if (← peek).isAnyWord then
        take
        seesAny [":", ","]
      else return false
  else return false

/-- An index signature. -/
def indexSignature : Parse Unit := do
  expect "["
  anyName
  unless ← eat "," do expect ":"
  typeInside g c
  expect "]"
  optionalAnnotation g c
  memberEnd

/-- A getter or setter of an object type. -/
def accessorSignature : Parse Unit := do
  let getter ← eatWord "get"
  unless getter do expectWord "set"
  propertyName g c .string (.refl true)
  expect "("
  if getter then
    expect ")"
    optionalAnnotation g c
  else
    if ← sees ")" then fail .invalidMember
    signatureParameters g c
  memberEnd

/-- A member of an object type. -/
def typeMember : Parse Unit :=
  node .group do
    if ← seesAny ["(", "<"] then
      signature g c
      memberEnd
    else if (← seesWord "new") && (← ahead (seesAny ["(", "<"])) then
      take
      signature g c
      memberEnd
    else
      let isReadonly ← eatModifier ["readonly"]
      if ← seesIndexSignature then indexSignature g c
      else
        -- `get` and `set` may also be the names of members.
        let accessor ← if isReadonly then pure false else succeeds (accessorSignature g c)
        unless accessor do
          propertyName g c .string (.refl true)
          let _ ← eat "?"
          if ← seesAny ["(", "<"] then
            if isReadonly then fail .invalidMember
            signature g c
          else optionalAnnotation g c
          memberEnd

/-- The members of an object type between braces. -/
def typeMembers : Parse Unit :=
  node .group do
    expect openBrace
    loop do
      let t ← peek
      if t.isSign closeBrace || t == .endOfText then return false
      typeMember g c
      return true
    expect closeBrace

/-- The token begins a mapped type. -/
def seesMappedType : Parse Bool :=
  ahead do
    if ← seesAny ["+", "-"] then
      take
      seesWord "readonly"
    else
      let _ ← eatWord "readonly"
      unless ← eat "[" do return false
      if (← peek).isReference then
        take
        seesWord "in"
      else return false

/-- A mapped type. -/
def mappedType : Parse Unit :=
  node .group do
    expect openBrace
    if ← seesAny ["+", "-"] then
      take
      expectWord "readonly"
    else
      let _ ← eatWord "readonly"
    expect "["
    anyName
    expectWord "in"
    typeInside g c
    if ← eatWord "as" then typeInside g c
    expect "]"
    if ← seesAny ["+", "-"] then
      take
      expect "?"
    else
      let _ ← eat "?"
    optionalAnnotation g c
    expectEnd
    expect closeBrace

/-! ### Types -/

/-- A member of a tuple type. -/
def tupleMember : Parse Unit := do
  let _ ← eat "..."
  let labelled ← test do
    anyName
    let _ ← eat "?"
    sees ":"
  if labelled then
    anyName
    let _ ← eat "?"
    expect ":"
    let _ ← eat "..."
  typeInside g c
  let _ ← eat "?"

/-- A tuple type. -/
def tupleType : Parse Unit :=
  node .group do
    expect "["
    commaSeparated "]" (tupleMember g c)
    expect "]"

/-- A template whose substitutions are types. -/
def templateType : Parse Unit :=
  node .group do
    advance .plain .template (.refl true)
    loop do
      match ← peek with
      | .quasi _ => advance .plain .templateEnd (.refl true)
      | _ => fail .unexpected
      if ← sees "$\x7b" then
        take
        typeInside g c
        if ← sees closeBrace then advance .plain .template (.refl true)
        else fail (.missingSign closeBrace)
        return true
      else
        take
        return false

/-- The type of an imported module. -/
def importType : Parse Unit :=
  node .group do
    expectWord "import"
    expect "("
    if (← peek) == .string then take else fail .unexpected
    if ← eat "," then
      unless ← sees ")" do node (.late .attributes) (g (.assignment c.inside))
      let _ ← eat ","
    expect ")"
    if ← eat "." then entityName
    optionalTypeArguments g c

/-- The type of a value. -/
def queryType : Parse Unit :=
  node .group do
    expectWord "typeof"
    if ← seesWord "import" then importType g c else entityName
    optionalTypeArguments g c

/-- A type that needs no operator. -/
def primaryType : Parse Unit := do
  match ← peek with
  | .string | .number => take
  | .word "true" | .word "false" | .word "null" | .word "void" => take
  | .word "import" => importType g c
  | .word "typeof" => queryType g c
  | .word "this" =>
    node .group do
      take
      if (← seesWord "is") && !(← newline) then
        take
        typeInside g c
  | .word s =>
    if s == "asserts" && (← ahead (seesWord "this")) then
      node .group do
        take
        take
        if (← seesWord "is") && !(← newline) then
          take
          typeInside g c
    else if reservedWords.contains s then fail .unexpected
    else
      node .group do
        entityName
        optionalTypeArguments g c
  | .sign s =>
    if s == "-" then
      node .group do
        take
        if (← peek) == .number then take else fail .unexpected
    else if s == "\x60" then templateType g c
    else if s == openBrace then
      if ← seesMappedType then mappedType g c else typeMembers g c
    else if s == "[" then tupleType g c
    else if s == "(" then
      node .group do
        take
        typeInside g c
        expect ")"
    else fail .unexpected
  | _ => fail .unexpected

/-- A type with the brackets of arrays and look-ups after it. -/
def postfixType : Parse Unit := do
  primaryType g c
  loop do
    if (← newline) || !(← sees "[") then return false
    wrap .group do
      take
      unless ← sees "]" do typeInside g c
      expect "]"
    return true

/-- `infer` with a name, and its bound unless a question mark makes that a condition. -/
def inferType : Parse Unit :=
  node .group do
    take
    anyName
    let _ ← attempt do
      expectWord "extends"
      g (.type { c with excludesConditionalTypes := true })
      -- A question mark means that this was the condition of a conditional type.
      if !c.excludesConditionalTypes && (← sees "?") then fail .unexpected

/-- A type with the operators before it. -/
def operatorType : Parse Unit :=
  node .group do
    loop do
      let t ← peek
      -- Before these signs such a word is itself the name of a type. Before a bracket it is none:
      -- what follows is a tuple.
      let operator := t.isWord "keyof" || t.isWord "unique" || t.isWord "readonly"
      if operator && (← ahead (do return !(← seesAny
          [",", ")", "]", closeBrace, ">", "=", ";", "|", "&", ".", ":", "<"]) &&
          (← peek) != .endOfText && !(← newline))) then
        take
        return true
      else return false
    if (← seesWord "infer") && (← ahead (do return (← peek).isAnyWord)) then inferType g c
    else postfixType g c

/-- Operands with a sign between them, and perhaps one before the first. -/
def joinedTypes (sign : String) (operand : Parse Unit) : Parse Unit :=
  node .group do
    let _ ← eat sign
    operand
    loop do
      if ← eat sign then
        operand
        return true
      else return false

/-- A union of intersections. -/
def unionType : Parse Unit :=
  joinedTypes "|" (joinedTypes "&" (operatorType g c))

/-- What stands behind the token's parenthesis can only be parameters. -/
def seesParameters : Parse Bool :=
  ahead do
    if ← seesAny [")", "..."] then return true
    parameterModifiers c
    let t ← peek
    let started ←
      if t.isAnyWord then
        take
        pure true
      else if t.isSign openBrace || t.isSign "[" then succeeds (g (.pattern c))
      else pure false
    unless started do return false
    if ← seesAny [":", ",", "?", "="] then return true
    if ← eat ")" then sees "=>" else return false

/-- The token begins the type of a function. -/
def seesFunctionType : Parse Bool := do
  if ← sees "<" then return true
  if ← sees "(" then seesParameters g c else return false

/-- The type of a function. -/
def functionType : Parse Unit :=
  node .group do
    let _ ← eatWord "abstract"
    let _ ← eatWord "new"
    optionalTypeParameters g c (.late .types)
    expect "("
    signatureParameters g c
    returnType g c (.late .types) "=>"

/-- A type without a condition. -/
def unconditionalType : Parse Unit := do
  if ← seesFunctionType g c then functionType g c
  else if (← seesWord "new") || ((← seesWord "abstract") && (← ahead (seesWord "new"))) then
    functionType g c
  else unionType g c

/-- The production of `Symbol.type`. -/
def typeExpression : Parse Unit :=
  node .group do
    unconditionalType g c
    if !c.excludesConditionalTypes && !(← newline) && (← seesWord "extends") then
      take
      g (.type { c with excludesConditionalTypes := true })
      expect "?"
      typeInside g c
      expect ":"
      typeInside g c

end Untranslated.Script.Grammar
