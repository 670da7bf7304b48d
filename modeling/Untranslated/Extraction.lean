import Untranslated.Candidate
import Untranslated.Script.Callee
import Untranslated.Script.Stripping
import Untranslated.Text.Blank

/-!
# Extraction

The literals of a script that could be shown to a user. Each belongs to the nearest piece of
markup around it: the children of an element, the value of an attribute, or plain code; and to
the innermost call inside that piece. A template that counts is one literal with all it holds.

* `Tree.occurrences`: the literals of a tree, as ranges of its text.
* `candidates`: the literals of a script.
-/

namespace Untranslated

open Script (Tree LeafKind Lexeme NodeKind Turn)

/-! ### Where a literal stands -/

/-- What an expression is part of. -/
inductive Owner
  | code
  | children
  | attributeValue (name : String)
  deriving DecidableEq, Repr

/-- What an expression is part of, and the innermost call it is an argument of. -/
structure Scope where
  owner : Owner
  callee : Option String
  deriving DecidableEq, Repr

/-- Plain code outside of all calls. -/
def Scope.code : Scope :=
  ⟨.code, none⟩

/-- Why a literal counts. -/
structure Origin where
  kind : Kind
  attributeName : Option String
  callee : Option String
  tag : Option String
  deriving DecidableEq, Repr

/-- A literal that counts: its range, and what tells about it. -/
structure Occurrence where
  lo : Nat
  hi : Nat
  /-- What encloses it; for a string only that some quote does. -/
  delimiter : Delimiter
  origin : Origin
  /-- The raw pieces of a template. -/
  pieces : Option (List (List Char))
  deriving DecidableEq, Repr

/-- Why a literal in a scope counts, if it does. -/
def Scope.origin? (o : Options) (s : Scope) (tag : Option String) : Option Origin :=
  if s.callee.any o.isCheckedCall then some ⟨.call, none, s.callee, tag⟩
  else
    match s.owner with
    | .children => some ⟨.text, none, s.callee, tag⟩
    | .attributeValue name =>
      if o.isCheckedAttribute name then some ⟨.attributeValue, some name, s.callee, tag⟩ else none
    | .code => none

/-! ### Literals of a tree -/

namespace Script.Tree

/-- The raw pieces of a template's text. -/
def pieces (parts : List Tree) : List (List Char) :=
  parts.filterMap fun
    | leaf (.lexeme .quasi) text => some text
    | _ => none

/-- The name of a tag or an attribute: its spelling without trivia. -/
def spelling : Tree → String
  | leaf _ text => String.ofList text
  | node _ parts => parts.foldl (fun name t =>
    match t with
    | leaf (.lexeme (.name s)) _ => name ++ s
    | leaf (.lexeme _) text => name ++ String.ofList text
    | _ => name) ""

/-- The element is one whose children are never text for a user. -/
def isRaw (parts : List Tree) : Bool :=
  parts.any fun
    | node .opening parts => parts.any fun
      | node .tagName name => ["style", "script"].contains (spelling (node .tagName name))
      | _ => false
    | _ => false

/-- The name of the attribute with these parts. -/
def attributeSpelling (parts : List Tree) : String :=
  (parts.find? fun
    | node .attributeName _ => true
    | _ => false).elim "" spelling

/-- The callee that the arguments of a node stand under: `none` if it is no call. -/
def callee? (kind : NodeKind) (parts : List Tree) : Option (Option String) :=
  match kind with
  | .call _ => some (headPath parts)
  | .new => some ((tailPath parts).map ("new " ++ ·))
  | .tagged => some none
  | _ => none

/-- The scope of a part of a node; `none` if the part is not looked into. -/
def partScope (s : Scope) (kind : NodeKind) (parts : List Tree) (part : Tree) : Option Scope :=
  match kind with
  | .discarded => none
  | .element =>
    match part with
    | node .opening _ => some .code
    | node .children _ => if isRaw parts then none else some ⟨.children, none⟩
    | _ => none
  | .fragment =>
    match part with
    | node .children _ => some ⟨.children, none⟩
    | _ => none
  | .container => some ⟨s.owner, none⟩
  | .attribute =>
    match part with
    | node .attributeName _ => none
    | _ => some ⟨.attributeValue (attributeSpelling parts), none⟩
  | _ =>
    match callee? kind parts, part with
    | some callee, node .arguments _ => some ⟨s.owner, callee⟩
    | some _, node .typeArguments _ => none
    | _, _ => some s

/-- The tag of a template that is a part of a node. -/
def tagOf (kind : NodeKind) (parts : List Tree) : Option String :=
  if kind == .tagged then headPath parts else none

mutual

/-- The literals of a tree that begins at the offset `lo`, under `tag` if it is a template. -/
def occurrences (o : Options) (s : Scope) (tag : Option String) (lo : Nat) :
    Tree → List Occurrence
  | leaf (.lexeme .string) text =>
    ((s.origin? o none).map fun origin =>
      ⟨lo, lo + Text.bytes text, .quote '"', origin, none⟩).toList
  | leaf (.lexeme .regex) text =>
    ((s.origin? o none).map fun origin =>
      ⟨lo, lo + Text.bytes text, .regex, origin, none⟩).toList
  | leaf (.lexeme .markupText) text =>
    if s.owner = .children then
      [⟨lo, lo + Text.bytes text, .none, ⟨.text, none, none, none⟩, none⟩] else []
  | leaf _ _ => []
  | node kind parts =>
    match kind, s.origin? o tag with
    | .template, some origin =>
      [⟨lo, lo + sizeAll parts, .template, origin, some (pieces parts)⟩]
    | _, _ => Turn.all.flatMap fun turn =>
      occurrencesAll o (partScope s kind parts) (tagOf kind parts) turn lo parts

/-- The literals of the parts with a turn. -/
def occurrencesAll (o : Options) (scope : Tree → Option Scope) (tag : Option String) (turn : Turn)
    (lo : Nat) : List Tree → List Occurrence
  | [] => []
  | t :: ts =>
    let rest := occurrencesAll o scope tag turn (lo + t.size) ts
    if t.turn = turn then
      match scope t with
      | some s => occurrences o s tag lo t ++ rest
      | none => rest
    else rest

end

end Script.Tree

/-! ### Candidates -/

open Text (bytes cut? cutBack? trim trimStart lineAt)

/-- How many characters of the text around a literal are kept. -/
def contextLength : Nat := 48

/-- The quote at the head of a text, a double quote where there is none. -/
def quoteOf (s : List Char) : Char :=
  if s.head? == some '\'' then '\'' else '"'

/-- The literal without its closing mark, if it has one besides an opening one. -/
def dropClosing (mark : Char) (outer : List Char) : List Char :=
  if bytes outer > 1 && outer.getLast? == some mark then outer.dropLast else outer

/-- The literal without its delimiters, and the number of bytes taken off its head. -/
def content (delimiter : Delimiter) (outer : List Char) : List Char × Nat :=
  match delimiter with
  | .none | .regex => (outer, 0)
  | .quote mark =>
    let inner := dropClosing mark outer
    if outer.head? == some mark then (inner.drop 1, 1) else (inner, 0)
  | .template =>
    let before := outer.takeWhile (· != '\x60')
    if before.length = outer.length then (outer, 0)
    else
      let inner := outer.drop (before.length + 1)
      (if inner.getLast? == some '\x60' then inner.dropLast else inner, bytes before + 1)

/-- The pieces of a template with a space for each substitution. -/
def joinPieces (pieces : List (List Char)) : List Char :=
  [' '].intercalate pieces

/-- The candidate that a literal is, `none` inside if its content is all blank. The literal's
range counts in `read`, the text that was read; its characters are those of `source`, which may
begin with a byte order mark. -/
def Occurrence.candidate? (source read : List Char) (x : Occurrence) :
    Option (Option Candidate) := do
  let (behind, rest) ← cutBack? [] x.lo source
  let (outer, after) ← cut? (x.hi - x.lo) rest
  let delimiter := match x.delimiter with
    | .quote _ => .quote (quoteOf rest)
    | d => d
  let (body, skipped) := content delimiter outer
  let text := trim body
  if text.isEmpty then return none
  -- The line is that of the first character kept, counted in the text that was read.
  let first := x.lo + skipped + (bytes body - bytes (trimStart body))
  return some {
    kind := x.origin.kind
    line := lineAt first read
    text := text
    staticText := x.pieces.elim text fun pieces => trim (joinPieces pieces)
    delimiter := delimiter
    attributeName := x.origin.attributeName
    callee := x.origin.callee
    tag := x.origin.tag
    before := trim (behind.take contextLength).reverse
    after := trim (after.take contextLength) }

/-- The literals of a script that could be shown to a user, by line. -/
def candidates (o : Options) (dialect : Script.Dialect) (source : List Char) :
    Except Script.Failure (List Candidate) := do
  let tree ← Script.read dialect source
  let found := tree.occurrences o .code none 0
  match found.mapM (Occurrence.candidate? source (Script.dropMark source)) with
  | none => .error .splitCharacter
  | some candidates => .ok ((candidates.filterMap id).mergeSort fun a b => a.line ≤ b.line)

end Untranslated
