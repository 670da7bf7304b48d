import Untranslated.Script.Grammar.Types

/-!
# Markup

Elements and fragments with their attributes and children. Between tags a lexeme is text or a
single sign, so each sign that ends a tag says how the lexeme after it is read.
-/

namespace Untranslated.Script.Grammar

open Parse

variable (g : Grammar) (c : Context)

/-- A name in markup. Answers its spelling. -/
def markupName : Parse String := do
  match ← peek with
  | .word _ =>
    reread markupNameToken readsCode_markupNameToken
    match ← peek with
    | .word s =>
      takeName
      return s
    | _ => fail .unexpected
  | _ => fail .unexpected

/-- The name in a namespace, if a colon follows what names it. Answers the spelling of all. -/
def nameAfterColon (name : String) : Parse String := do
  if ← eat ":" then return name ++ ":" ++ (← markupName) else return name

/-- More names with dots before them, at most one for each character of `fuel`. Answers the
spelling of all. -/
def namesAfterDots : List Char → String → Parse String
  | [], name => pure name
  | _ :: fuel, name => do
    if ← eat "." then
      let next ← markupName
      namesAfterDots fuel (name ++ "." ++ next)
    else return name

/-- The name of a tag: a name, a name with its namespace, or names with dots between them. -/
def tagName : Parse String :=
  node .tagName do
    let name ← markupName
    if ← sees ":" then nameAfterColon name else namesAfterDots (← place) name

/-- The sign that ends a tag or a brace is taken, and the next lexeme is read in a mode. -/
def expectThen (sign : String) (mode : Mode) (hsign : sign = ">" ∨ sign = closeBrace) :
    Parse Unit := do
  splitAngle
  expectEndOf sign mode hsign

/-- What stands between braces in markup, which `mode` follows. -/
def container (mode : Mode) : Parse Unit :=
  nodeOf do
    expect openBrace
    if ← eat "..." then
      g (.expression c.inside)
      expectThen closeBrace mode (.inr rfl)
      return .group
    else
      unless ← sees closeBrace do g (.expression c.inside)
      expectThen closeBrace mode (.inr rfl)
      return .container

/-- The value of an attribute. -/
def attributeValue : Parse Unit := do
  match ← peek with
  | .sign s =>
    if s == openBrace then
      let start ← place
      if ← ahead (sees closeBrace) then failAt .emptyAttribute start
      container g c .normal
    else if s == "<" then g (.element c .normal)
    else fail .unexpected
  | _ =>
    -- The token may be no string of code: a value has no escapes and may end lines.
    let here ← place
    match here with
    | '"' :: _ | '\'' :: _ =>
      reread markupStringToken readsCode_markupStringToken
      if (← peek) == .string then advance .string .normal (.refl true) else fail .unexpected
    | _ => fail .unexpected

/-- An attribute, or an object whose properties are attributes. -/
def markupAttribute : Parse Unit := do
  if ← sees openBrace then
    node .group do
      take
      expect "..."
      g (.assignment c.inside)
      expect closeBrace
  else
    node .attribute do
      node .attributeName do
        let name ← markupName
        let _ ← nameAfterColon name
      if ← eat "=" then attributeValue g c

/-- The attributes of a tag up to its end. -/
def attributes : Parse Unit :=
  loop do
    splitAngle
    if ← seesAny ["/", ">"] then return false
    markupAttribute g c
    return true

/-- What stands between an opening and a closing tag. -/
def children : Parse Unit :=
  node .children <| loop do
    match ← peek with
    | .markupText =>
      markupText
      return true
    | .sign s =>
      if s == openBrace then
        container g c .markup
        return true
      else if s == "<" then
        if ← ahead (sees "/") then return false
        g (.element c .markup)
        return true
      else fail .unexpected
    | _ => fail .unexpected

/-- The closing tag of what `name` opened, or of a fragment. -/
def closingTag (name : Option String) (after : Mode) : Parse Unit := do
  let start ← place
  node .group do
    expect "<"
    expect "/"
    -- The next sign may be glued to the bracket, as in `>>`.
    splitAngle
    let found ← do if ← sees ">" then pure none else some <$> tagName
    if found != name then failAt .mismatchedTag start
    expectThen ">" after (.inl rfl)

/-- The production of `Symbol.element`. -/
def element (after : Mode) : Parse Unit := do
  if ← ahead (do splitAngle; sees ">") then
    node .fragment do
      node .opening do
        expect "<"
        expectThen ">" .markup (.inl rfl)
      children g c
      closingTag none after
  else
    nodeOf do
      let opened ← node .opening do
        expect "<"
        let name ← tagName
        if c.hasTypes && (← sees "<") then let _ ← succeeds (typeArguments g c)
        attributes g c
        if ← eat "/" then
          expectThen ">" after (.inl rfl)
          return none
        else
          expectThen ">" .markup (.inl rfl)
          return some name
      if opened.isSome then
        children g c
        closingTag opened after
      return .element

end Untranslated.Script.Grammar
