import Untranslated.Script.Grammar.Types

/-!
# Patterns, arguments and parameters

What a value can be bound to: a name, or a destructuring pattern with default values. Where only
what follows tells a pattern from an expression, the expression is read and then taken for the
pattern. Arguments stand here because decorators, which parameters may have, take them.
-/

namespace Untranslated.Script.Grammar

open Parse

variable (g : Grammar) (c : Context)

/-- A default value, if there is an equals sign. -/
def optionalDefault : Parse Unit := do
  if ← eat "=" then g (.assignment c.inside)

/-- An element of a pattern: a pattern and perhaps its default. -/
def patternElement : Parse Unit := do
  g (.pattern c)
  optionalDefault g c

/-- A pattern for the elements of a sequence; elements may be left out. -/
def arrayPattern : Parse Unit :=
  node .group do
    expect "["
    loop do
      let t ← peek
      if t.isSign "]" || t == .endOfText then return false
      if ← eat "," then return true
      if ← eat "..." then g (.pattern c) else patternElement g c
      if ← sees "]" then return false
      expect ","
      return true
    expect "]"

/-- A property of a pattern: `name`, `name = default`, `name: pattern` or `...rest`. -/
def patternProperty : Parse Unit := do
  if ← eat "..." then g (.pattern c)
  else
    let isName := (← peek).isAnyWord
    propertyName g c .plain (.refl true)
    if ← eat ":" then patternElement g c
    else if isName then optionalDefault g c
    else fail .unexpected

/-- A pattern for the properties of an object. -/
def objectPattern : Parse Unit :=
  node .group do
    expect openBrace
    commaSeparated closeBrace (patternProperty g c)
    expect closeBrace

/-- The production of `Symbol.pattern`. -/
def bindingPattern : Parse Unit := do
  if ← sees "[" then arrayPattern g c
  else if ← sees openBrace then objectPattern g c
  else identifier

/-- The latest finished part, an expression that began at `start`, is taken for a pattern. Of what
no pattern can be only the methods of objects are refused; the rest is passed over. -/
def expectPattern (assigned : Bool) (start : List Char) : Parse Unit := do
  if let some n := (← latest).bind (Tree.misfit? assigned) then
    failAt .invalidPattern (start.drop n)

/-- An expression, perhaps spread. -/
def spreadable : Parse Unit := do
  let _ ← eat "..."
  g (.assignment c.inside)

/-- Arguments between parentheses. -/
def arguments : Parse Unit :=
  node .arguments do
    expect "("
    commaSeparated ")" (spreadable g c)
    expect ")"

/-- A decorator: a name with its members and calls, or an expression in parentheses, which may
be called. -/
def decorator : Parse Unit :=
  node .group do
    expect "@"
    if ← sees "(" then
      node .paren do
        take
        g (.expression c.inside)
        expect ")"
      if ← sees "(" then wrap (.call false) (arguments g c)
    else
      identifier
      g (.decoration c)

/-- All decorators before something, as a node of a kind. -/
def decorators (kind : NodeKind) : Parse Unit := do
  if ← sees "@" then
    node kind <| loop do
      if ← sees "@" then
        decorator g c
        return true
      else return false

/-- A parameter with its type and default. -/
def parameter : Parse Unit :=
  node .group do
    decorators g c .group
    if ← eat "..." then
      g (.pattern c)
      optionalDefault g c
      optionalAnnotation g c
      if c.hasTypes then let _ ← eat "?"
    else
      parameterModifiers c
      if c.hasTypes && (← seesWord "this") then take else g (.pattern c)
      if c.hasTypes then let _ ← eat "?"
      optionalAnnotation g c
      optionalDefault g c

/-- Parameters between parentheses. -/
def parameters : Parse Unit := do
  expect "("
  commaSeparated ")" (parameter g c)
  expect ")"

/-- A declarator of a variable. A destructuring pattern needs a value outside of statements with
`const`, of ambient declarations and of the heads of loops over elements. -/
def declarator (isConst inLoopHead : Bool) : Parse Unit := do
  let start ← place
  node .declarator do
    let isName ← (do return !(← seesAny ["[", openBrace]))
    g (.pattern c)
    if c.hasTypes && isName then let _ ← eat "!"
    optionalAnnotation g c
    let overElements := inLoopHead && ((← seesWord "of") || (← seesWord "in"))
    unless overElements do
      if ← sees "=" then
        node .initializer do
          take
          g (.assignment { c with colonFollows := false })
      else if !isName && (!isConst || inLoopHead) && !c.isAmbient then failAt .invalidPattern start

end Untranslated.Script.Grammar
