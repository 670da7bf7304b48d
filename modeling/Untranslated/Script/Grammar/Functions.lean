import Untranslated.Script.Grammar.Patterns

/-!
# Functions and classes

Functions from their type parameters on, the members of object literals and of classes, and
classes themselves. The parts of a function come in the order parameters, decorators, body, types;
those of a property value, type, decorators; and those of a class body, what it extends, types.
-/

namespace Untranslated.Script.Grammar

open Parse

variable (g : Grammar) (c : Context)

/-- Statements between braces. -/
def block (level : Level) : Parse Unit :=
  node .group do
    expect openBrace
    loop do
      let t ← peek
      if t.isSign closeBrace || t == .endOfText then return false
      g (.statement { c with excludesIn := false, colonFollows := false } level)
      return true
    expect closeBrace

/-- The body of a function; where there are types it may be left out. Answers whether there is
one. -/
def functionBody : Parse Bool := do
  if c.hasTypes && !(← sees openBrace) then
    if ← eatEnd then return false
  node (.late .body) (block g c .block)
  return true

/-- A function from its type parameters on. Answers whether it has a body. -/
def functionRest (async generator : Bool) : Parse Bool := do
  let inner := c.inFunction async generator
  optionalTypeParameters g inner (.late .types)
  parameters g inner
  optionalReturnType g inner (.late .types)
  functionBody g inner

/-- A method of a class or an object from its type parameters on. -/
def methodRest (async generator : Bool) : Parse Unit := do
  let _ ← functionRest g c async generator

/-- A constructor, or a function that sets a property of an object, from its type parameters on.
Nothing is made of its types. -/
def untypedRest : Parse Unit := do
  let inner := c.inFunction false false
  optionalTypeParameters g inner .discarded
  parameters g inner
  optionalReturnType g inner .discarded
  let _ ← functionBody g inner

/-- A function that gets a property of an object, from its type parameters on. Nothing is made of
its parameters, and its type comes before its body. -/
def getterRest : Parse Unit := do
  let inner := c.inFunction false false
  optionalTypeParameters g inner .discarded
  node .discarded (parameters g inner)
  optionalReturnType g inner .group
  let _ ← functionBody g inner

/-! ### Classes -/

/-- The token says that the member before it is a method. -/
def seesMethod : Parse Bool := do
  return (← sees "(") || (c.hasTypes && (← sees "<"))

/-- The token says that the member before it is a property; `lines` counts the end of a line. -/
def seesProperty (lines : Bool) : Parse Bool := do
  if c.hasTypes && (← seesAny ["!", ":"]) then return true
  if ← seesAny ["=", closeBrace, ";"] then return true
  if lines then atEnd else return false

/-- A property of a class from what follows its name. A missing end is passed over. -/
def propertyRest : Parse Unit := do
  if c.hasTypes then let _ ← eat "!"
  if c.hasTypes && (← sees ":") then node (.late .propertyType) (typeAfterColon g c)
  if ← eat "=" then g (.assignment (c.inFunction false false))
  let _ ← eatEnd

/-- The name of a member of a class. -/
def memberName : Parse Unit := do
  if ← eat "#" then anyName else propertyName g c .plain (.refl true)

/-- The token is the name of a constructor. -/
def seesConstructorName : Parse Bool := do
  if (← peek) == .string then
    let name := (← place).take 13
    return name == "'constructor'".toList || name == "\"constructor\"".toList
  else seesWord "constructor"

/-- A word is a name that was just read; a member may follow. -/
def memberAfterName (name : Option String) (isConstructor optional : Bool) : Parse Unit := do
  if ← seesMethod c then
    if isConstructor then untypedRest g c else methodRest g c false false
  else
    let broken ← newline
    -- `get` and `set` are names of members themselves where no other name follows.
    let accessor ← match name with
      | some "get" | some "set" => (do
          return !(← seesProperty c false) && !(broken && (← sees "*")))
      | _ => pure false
    if !accessor && (← seesProperty c true) then
      if name == some "constructor" then fail .invalidMember else propertyRest g c
    else if name == some "async" && !broken then
      let generator ← eat "*"
      memberName g c
      if !optional && c.hasTypes then let _ ← eat "?"
      methodRest g c true generator
    else if accessor then
      memberName g c
      methodRest g c false false
    else fail .invalidMember

/-- The word the token is. -/
def wordSeen : Parse (Option String) := do
  match ← peek with
  | .word s => return some s
  | _ => return none

/-- A member of a class after the words `declare`, `static` and the access words. -/
def memberAfterAccess (isStatic : Bool) : Parse Unit := do
  if c.hasTypes then loop (eatModifier ["abstract", "readonly", "override", "static", "accessor",
    "declare"])
  if isStatic && (← sees openBrace) then
    block g (c.inFunction false false) .block
  else if c.hasTypes && (← seesIndexSignature) then indexSignature g c
  else if ← eat "*" then
    memberName g c
    methodRest g c false true
  else
    let name ← wordSeen
    let isConstructor ← seesConstructorName
    memberName g c
    let optional ← if c.hasTypes then eat "?" else pure false
    memberAfterName g c name isConstructor optional

/-- A word that is the name of a member if what follows says so. Answers whether it was. -/
def wordAsMember (lines : Bool) : Parse Bool := do
  let optional ← if c.hasTypes then eat "?" else pure false
  if ← seesMethod c then
    methodRest g c false false
    return true
  else if optional || (← seesProperty c lines) then
    propertyRest g c
    return true
  else return false

/-- A constructor follows, perhaps after decorators and access words. -/
def seesConstructor : Parse Bool :=
  test do
    decorators g c .group
    if c.hasTypes then loop (eatModifier ["public", "protected", "private", "override", "static"])
    if ← seesConstructorName then
      memberName g c
      seesMethod c
    else return false

/-- A member of a class. Nothing is made of the decorators of a constructor. -/
def classMember : Parse Unit := do
  if ← eat ";" then return
  node .group do
    if ← sees "@" then
      let isConstructor ← seesConstructor g c
      decorators g c (if isConstructor then .discarded else .late .decorators)
    if c.hasTypes && (← seesWord "declare") then
      takeName
      if ← wordAsMember g c true then return
    if c.hasTypes then let _ ← eatModifier ["public", "protected", "private"]
    if c.hasTypes then let _ ← eatModifier ["declare"]
    if ← seesWord "static" then
      takeName
      if ← wordAsMember g c false then return
      memberAfterAccess g c true
    else memberAfterAccess g c false

/-- The members of a class between braces. -/
def classBody : Parse Unit :=
  node .group do
    expect openBrace
    loop do
      let t ← peek
      if t.isSign closeBrace || t == .endOfText then return false
      classMember g c
      return true
    expect closeBrace

/-- The types that a class or an interface names, with commas between them and perhaps one after
the last. There may be none. -/
def heritageTypes : Parse Unit := do
  let seesEnd : Parse Bool := do
    return (← sees openBrace) || (← seesWord "extends") || (← seesWord "implements")
  loop do
    if ← seesEnd then return false
    node .group do
      entityName
      optionalTypeArguments g c
    if ← eat "," then return true
    unless ← seesEnd do fail (.missingSign ",")
    return false

/-- The class that a class extends. -/
def baseClass : Parse Unit := do
  expectWord "extends"
  g (.leftHand c)
  regroup Tree.baseParts Tree.leavesAll_baseParts
  if c.hasTypes then optionalTypeArguments g c

/-- What a class extends and implements. What is named twice or in another order is given up, but
for a class that is extended behind what is implemented. -/
def heritage : Parse Unit := do
  let extending ← seesWord "extends"
  if extending then
    baseClass g c
    if c.hasTypes && (← eat ",") then node .discarded (heritageTypes g c)
  if ← seesWord "extends" then node .discarded (baseClass g c)
  if c.hasTypes then
    if ← eatWord "implements" then node (.late .types) (heritageTypes g c)
    if ← eatWord "implements" then node .discarded (heritageTypes g c)
    if ← seesWord "extends" then
      if extending then node .discarded (baseClass g c) else baseClass g c

/-- A class from the word `class` on. The name of a declaration may be left out only after
`export default`. -/
def classRest (needsName : Bool) : Parse Unit := do
  expectWord "class"
  let t ← peek
  if t.isReference && !(c.hasTypes && t.isWord "implements" && !needsName) then identifier
  else if needsName then fail .unexpected
  optionalTypeParameters g c (.late .types)
  heritage g c
  classBody g c

end Untranslated.Script.Grammar
