import Untranslated.Script.Grammar.Literals

/-!
# Subscripts

The members and calls that follow an expression, and the two words that need one of them.
-/

namespace Untranslated.Script.Grammar

open Parse

variable (g : Grammar) (c : Context)

/-- The name after a dot: an identifier, or a private name, which names nothing outside. -/
def memberTail (optional : Bool) : Parse NodeKind := do
  if ← eat "#" then
    anyName
    return .index optional
  else
    anyName
    return .member optional

/-- What may follow type arguments for them not to be a comparison: nothing that begins an
operand on the same line. -/
def endsInstantiation : Parse Bool := do
  if ← seesAny ["<", ">", "+", "-", "(", "\x60"] then return false
  if ← newline then return true
  match ← peek with
  | .word s => return ["in", "instanceof", "as"].contains s
  | .sign s => return !(["[", "!", "~", "++", "--", "@", "#", openBrace].contains s)
  | .endOfText => return true
  | _ => return false

/-- Type arguments with the call, template or end of expression that makes them such. Answers
whether more subscripts may follow. -/
def typedSubscript (noCall : Bool) : Parse Bool := do
  let result ← attempt do
    wrapOf do
      typeArguments g c
      if !noCall && (← sees "(") then
        arguments g c
        return .call false
      else if ← sees "\x60" then
        template g c true
        return .tagged
      else if ← endsInstantiation then return .group
      else fail .unexpected
    return true
  return result.isSome

/-- One subscript of the expression before the token. Answers whether there was one. -/
def subscript (noCall noComputed : Bool) : Parse Bool := do
  if c.hasTypes && (← sees "!") && !(← newline) then
    wrap .nonNull take
    return true
  if c.hasTypes && (← seesAngle) then
    if ← typedSubscript g c noCall then return true
  if ← sees "?." then
    wrapOf do
      take
      if ← sees "[" then
        take
        g (.expression c.inside)
        expect "]"
        return .index true
      else if ← sees "(" then
        arguments g c
        return .call true
      else if c.hasTypes && (← seesAngle) then
        typeArguments g c
        arguments g c
        return .call true
      else memberTail true
    return true
  if !noComputed && (← sees "[") then
    wrap (.index false) do
      take
      g (.expression c.inside)
      expect "]"
    return true
  if !noCall && (← sees "(") then
    wrap (.call false) (arguments g c)
    return true
  if ← sees "." then
    wrapOf do
      take
      memberTail false
    return true
  if ← sees "\x60" then
    wrap .tagged (template g c true)
    return true
  return false

/-- All subscripts of the expression before the token. -/
def subscripts (noCall noComputed : Bool) : Parse Unit :=
  loop (subscript g c noCall noComputed)

/-- The production of `Symbol.decoration`. -/
def decoration : Parse Unit :=
  subscripts g c false true

/-- `super` with the member or call that must follow it, and what follows that. -/
def superExpression (noCall : Bool) : Parse Unit := do
  nodeOf do
    take
    if !noCall && (← sees "(") then
      arguments g c
      return .call false
    else if ← eat "[" then
      g (.expression c.inside)
      expect "]"
      return .group
    else if ← eat "." then
      let _ ← memberTail false
      return .group
    else fail .misplacedSuper
  subscripts g c noCall false

/-- `import.meta` or the import of a module as an expression. -/
def importExpression (noCall : Bool) : Parse Unit := do
  nodeOf do
    take
    if ← eat "." then
      if ← eatWord "meta" then return .group
      else
        anyName
        arguments g c
        return .call false
    else
      if noCall then fail .unexpected
      if ← sees "(" then arguments g c else fail .unexpected
      return .call false
  subscripts g c noCall false

end Untranslated.Script.Grammar
