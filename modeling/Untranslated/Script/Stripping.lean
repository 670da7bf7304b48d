import Untranslated.Script.Parser
import Untranslated.Text.Erasure
import Untranslated.Text.Lines

/-!
# Stripping

Comments and the statements that bring in modules hold no text for users. They are erased from
a script in a way that leaves every line where it is: line comments are dropped, all else is
blanked.

* `regions`: what is erased from a script with a given tree.
* `strip`: a script without it.
-/

namespace Untranslated.Script

open Text (Region Erasure bytes cut?)

/-! ### Statements that bring in modules -/

namespace Tree

/-- The tree is the name `require`. -/
def isRequireName : Tree → Bool
  | leaf (.lexeme (.name spelling)) _ => spelling == "require"
  | _ => false

mutual

/-- A call of `require`, or what is looked up in or awaited of one. -/
def isRequire : Tree → Bool
  | node (.call false) parts => (parts.find? isSolid).any isRequireName
  | node (.member false) parts => headIsRequire parts
  | node (.index false) parts => headIsRequire parts
  | node .await parts => tailIsRequire parts
  | node .paren parts => (parts.filter isSolid).length == 3 && tailIsRequire parts
  | _ => false

/-- The first tree that is not trivia is such an expression. -/
def headIsRequire : List Tree → Bool
  | [] => false
  | t :: ts => if t.isSolid then isRequire t else headIsRequire ts

/-- The first tree after the head that is not trivia is such an expression. -/
def tailIsRequire : List Tree → Bool
  | [] => false
  | _ :: ts => headIsRequire ts

end

/-- A declarator whose value is such an expression. -/
def requires : Tree → Bool
  | node .declarator parts => parts.any fun
    | node .initializer parts => tailIsRequire parts
    | _ => false
  | _ => false

/-- Variables of which one has such a value. -/
def variablesRequire : Tree → Bool
  | node .bindings parts => parts.any requires
  | _ => false

/-- The tree is a statement that brings in a module. -/
def isModuleStatement : Tree → Bool
  | node .importDeclaration _ => true
  | node .importEquals _ => true
  | node .reExport _ => true
  | node .exportedVariables parts => parts.any variablesRequire
  | node .variableStatement parts => parts.any variablesRequire
  | node .expressionStatement parts => headIsRequire parts
  | _ => false

mutual

/-- The ranges of the outermost statements of a tree that bring in modules; the tree begins at
the offset `lo`. -/
def moduleStatements (lo : Nat) : Tree → List (Nat × Nat)
  | leaf _ _ => []
  | node kind parts =>
    if isModuleStatement (node kind parts) then [(lo, lo + (node kind parts).size)]
    else if kind == .discarded then []
    else moduleStatementsAll lo parts

/-- The same for several trees in a row. -/
def moduleStatementsAll (lo : Nat) : List Tree → List (Nat × Nat)
  | [] => []
  | t :: ts => moduleStatements lo t ++ moduleStatementsAll (lo + t.size) ts

end

end Tree

/-! ### Regions -/

/-- The comments among leaves that begin at the offset `lo`. -/
def commentRegions (lo : Nat) : List (LeafKind × List Char) → List Region
  | [] => []
  | (kind, text) :: leaves =>
    let hi := lo + bytes text
    let rest := commentRegions hi leaves
    match kind with
    | .trivia .lineComment => ⟨lo, hi, .drop⟩ :: rest
    | .trivia .blockComment => ⟨lo, hi, .blank⟩ :: rest
    | _ => rest

/-- The range of a statement with a semicolon right after it; `none` if it ends inside a
character of the text. -/
def statementRegion? (s : List Char) (range : Nat × Nat) : Option Region := do
  let (_, after) ← cut? range.2 s
  let hi := if after.head? == some ';' then range.2 + 1 else range.2
  return ⟨range.1, hi, .blank⟩

/-- What is erased from a script `s` with the tree `t`. -/
def regions? (s : List Char) (t : Tree) : Option (List Region) := do
  let statements ← (t.moduleStatements 0).mapM (statementRegion? s)
  return commentRegions 0 t.leaves ++ statements

/-! ### Failures -/

/-- Why a script cannot be worked on. -/
inductive Failure
  /-- It is not accepted, for a reason found on a line. -/
  | rejected (line : Nat) (cause : Cause)
  /-- An offset falls inside a character. -/
  | splitCharacter
  deriving Repr

/-- A script without a byte order mark at its head. -/
def dropMark : List Char → List Char
  | '\ufeff' :: rest => rest
  | s => s

/-- The tree of a script. A byte order mark is no part of it. -/
def read (dialect : Dialect) (s : List Char) : Except Failure Tree :=
  let s := dropMark s
  match parse dialect s with
  | .ok t => .ok t
  | .error fault => .error (.rejected (Text.lineAt (bytes s - bytes fault.rest) s) fault.cause)

/-- The script without comments and without the statements that bring in modules. -/
def strip (dialect : Dialect) (s : List Char) : Except Failure (List Char) := do
  let t ← read dialect s
  match regions? s t with
  | none => .error .splitCharacter
  | some regions =>
    match Text.erase s regions with
    | none => .error .splitCharacter
    | some stripped => .ok stripped

end Untranslated.Script
