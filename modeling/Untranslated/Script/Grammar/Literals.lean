import Untranslated.Script.Grammar.Functions

/-!
# Literals

Templates, arrays and objects, functions as expressions and the bodies of arrow functions.
-/

namespace Untranslated.Script.Grammar

open Parse

variable (g : Grammar) (c : Context)

/-- A template. Malformed escapes are allowed only after a tag. -/
def template (tagged : Bool) : Parse Unit :=
  node .template do
    advance .plain .template (.refl true)
    loop do
      match ← peek with
      | .quasi none => advance .quasi .templateEnd (.refl true)
      | .quasi (some n) =>
        if tagged then advance .quasi .templateEnd (.refl true)
        else failAt (.lexical .badEscape) ((← place).drop n)
      | _ => fail .unexpected
      if ← sees "$\x7b" then
        take
        g (.expression c.inside)
        if ← sees closeBrace then advance .plain .template (.refl true)
        else fail (.missingSign closeBrace)
        return true
      else
        take
        return false

/-- An array literal; elements may be left out. -/
def arrayLiteral : Parse Unit :=
  node .array do
    expect "["
    loop do
      let t ← peek
      if t.isSign "]" || t == .endOfText then return false
      if ← eat "," then return true
      spreadable g c
      if ← sees "]" then return false
      expect ","
      return true
    expect "]"

/-! ### Functions and objects -/

/-- A function expression from the word `function` on. -/
def functionExpression (async : Bool) : Parse Unit := do
  expectWord "function"
  let generator ← eat "*"
  if (← peek).isReference then identifier
  unless ← functionRest g c async generator do fail (.missingSign openBrace)

/-- What an arrow leads to: a block or an expression. -/
def arrowBody (async : Bool) : Parse Unit := do
  let inner := { c with inAsync := async, inGenerator := false }
  if ← sees openBrace then block g (c.inFunction async false) .block
  else g (.assignment inner)

/-- What follows the name of a member of an object literal where `word` is that name and no value
or parameters come next: a default, nothing, or the name that `word` is a modifier of. -/
def memberAfterWord (word : String) : Parse NodeKind := do
  let _ ← eat "?"
  if ← eat "=" then
    g (.assignment c.inside)
    return .group
  if ← seesAny [",", closeBrace] then return .group
  match word with
  | "get" =>
    propertyName g c .plain (.refl true)
    getterRest g c
  | "set" =>
    propertyName g c .plain (.refl true)
    untypedRest g c
  | "async" =>
    let generator ← eat "*"
    propertyName g c .plain (.refl true)
    methodRest g c true generator
  | _ => fail .unexpected
  return .method

/-- A member of an object literal. -/
def objectMember : Parse Unit :=
  nodeOf do
    if ← eat "..." then
      g (.assignment c.inside)
      return .spread
    if ← eat "*" then
      propertyName g c .plain (.refl true)
      methodRest g c false true
      return .method
    parameterModifiers c
    let name ← wordSeen
    propertyName g c .plain (.refl true)
    if ← eat ":" then
      g (.assignment c.inside)
      return .property
    if ← seesMethod c then
      methodRest g c false false
      return .method
    match name with
    | some word => memberAfterWord g c word
    | none => fail .unexpected

/-- An object literal. -/
def objectLiteral : Parse Unit :=
  node .object do
    expect openBrace
    commaSeparated closeBrace (objectMember g c)
    expect closeBrace

end Untranslated.Script.Grammar
