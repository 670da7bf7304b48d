import Untranslated.Text.Bytes

/-!
# Trees of a script

A script is read into a tree whose leaves are all of its lexemes and all that stands between
them, so the text of the tree is the script and the place of a part follows from the parts
before it.

* `Tree.text_node`: the text of a node is the text of its parts in order.
* `Tree.textAll_append`: the texts of several trees follow each other.
* `Tree.size_eq`: the size of a tree is the number of bytes of its text.
-/

namespace Untranslated.Script

open Text (bytes)

/-- What may stand between two lexemes. -/
inductive Trivia
  | blank
  | lineComment
  | blockComment
  deriving DecidableEq, Repr

/-- What a lexeme means to a reader of the tree; most are `plain`. -/
inductive Lexeme
  | plain
  /-- An identifier, with its escapes resolved. -/
  | name (spelling : String)
  | this
  /-- A string in expression position, or as the value of an attribute. -/
  | string
  | regex
  /-- The raw text of a template between its delimiters and substitutions. -/
  | quasi
  /-- Text between tags. -/
  | markupText
  deriving DecidableEq, Repr

/-- A leaf is a lexeme or trivia. -/
inductive LeafKind
  | trivia (kind : Trivia)
  | lexeme (kind : Lexeme)
  deriving DecidableEq, Repr

/-- The turns in which the parts of a node are read. Parts with one turn are read in the order of
the text. -/
inductive Turn
  | plain
  /-- The type of a property of a class, after its value. -/
  | propertyType
  /-- The decorators of a member of a class. -/
  | decorators
  /-- The body of a function or of a `do` loop, what a class extends, and what a signature in an
  object type returns. -/
  | body
  /-- Type parameters and arguments, what a function returns, what a class implements, and a type
  asserted before its operand. -/
  | types
  /-- The attributes with which a type is imported. -/
  | attributes
  deriving DecidableEq, Repr

namespace Turn

/-- The number of turns before. -/
def rank : Turn → Nat
  | plain => 0
  | propertyType => 1
  | decorators => 2
  | body => 3
  | types => 4
  | attributes => 5

instance : LT Turn where
  lt a b := a.rank < b.rank

instance (a b : Turn) : Decidable (a < b) :=
  inferInstanceAs (Decidable (a.rank < b.rank))

/-- All turns, one after another. -/
def all : List Turn :=
  [plain, propertyType, decorators, body, types, attributes]

theorem pairwise_all : all.Pairwise (· < ·) := by
  decide

theorem lt_irrefl (a : Turn) : ¬a < a :=
  Nat.lt_irrefl a.rank

end Turn

/-- What a node is. Parts of a `group` have no role but their order. -/
inductive NodeKind
  | group
  /-- Text given up after an error that was mended, or that nothing is made of. -/
  | discarded
  /-- A part with a turn of its own. -/
  | late (turn : Turn)
  /-- A function or class in expression position. -/
  | definition
  | arrow
  /-- An operator with its operands. -/
  | operation
  | paren
  /-- An object literal. -/
  | object
  /-- A property of an object literal with its value. -/
  | property
  /-- A method of an object literal, or what is done to get or set a property. -/
  | method
  /-- An object whose properties an object literal takes over. -/
  | spread
  /-- An array literal. -/
  | array
  | nonNull
  | await
  /-- `object.name`, or `object?.name`. -/
  | member (optional : Bool)
  /-- `object[key]` or `object.#name`, or either of them after `?.`. -/
  | index (optional : Bool)
  /-- `callee(arguments)`, or `callee?.(arguments)`. -/
  | call (optional : Bool)
  | new
  | arguments
  | typeArguments
  | template
  /-- A tag and its template. -/
  | tagged
  /-- An opening tag, `children` and a closing tag. -/
  | element
  | fragment
  | opening
  | tagName
  | children
  | attribute
  | attributeName
  /-- `{expression}` in markup. -/
  | container
  /-- `var`, `let`, `const` or `using` with its declarators. -/
  | bindings
  | declarator
  | initializer
  /-- A statement that is a `bindings` node. -/
  | variableStatement
  | expressionStatement
  | importDeclaration
  | importEquals
  /-- An export that names the module it takes from. -/
  | reExport
  /-- `export` of a `bindings` node. -/
  | exportedVariables
  deriving DecidableEq, Repr

/-- A script, or a part of one. -/
inductive Tree
  | leaf (kind : LeafKind) (text : List Char)
  | node (kind : NodeKind) (parts : List Tree)

namespace Tree

mutual

/-- The leaves of a tree in order. -/
def leaves : Tree → List (LeafKind × List Char)
  | leaf kind text => [(kind, text)]
  | node _ parts => leavesAll parts

/-- The leaves of several trees in order. -/
def leavesAll : List Tree → List (LeafKind × List Char)
  | [] => []
  | t :: ts => t.leaves ++ leavesAll ts

end

/-- The text of a tree: that of its leaves. -/
def text (t : Tree) : List Char :=
  t.leaves.flatMap (·.2)

/-- The text of several trees. -/
def textAll (ts : List Tree) : List Char :=
  (leavesAll ts).flatMap (·.2)

@[simp] theorem leavesAll_nil : leavesAll [] = [] := rfl

@[simp] theorem leavesAll_cons (t : Tree) (ts : List Tree) :
    leavesAll (t :: ts) = t.leaves ++ leavesAll ts := rfl

@[simp] theorem leaves_leaf (k : LeafKind) (s : List Char) : (leaf k s).leaves = [(k, s)] := rfl

@[simp] theorem leaves_node (k : NodeKind) (ts : List Tree) :
    (node k ts).leaves = leavesAll ts := rfl

@[simp] theorem leavesAll_append (ts us : List Tree) :
    leavesAll (ts ++ us) = leavesAll ts ++ leavesAll us := by
  induction ts with
  | nil => rfl
  | cons t ts ih => simp [ih]

@[simp] theorem textAll_nil : textAll [] = [] := rfl

@[simp] theorem textAll_cons (t : Tree) (ts : List Tree) :
    textAll (t :: ts) = t.text ++ textAll ts := by
  simp [textAll, text]

@[simp] theorem textAll_append (ts us : List Tree) :
    textAll (ts ++ us) = textAll ts ++ textAll us := by
  simp [textAll]

@[simp] theorem text_leaf (k : LeafKind) (s : List Char) : (leaf k s).text = s := by
  simp [text]

@[simp] theorem text_node (k : NodeKind) (ts : List Tree) : (node k ts).text = textAll ts := rfl

mutual

/-- The number of bytes of a tree's text. -/
def size : Tree → Nat
  | leaf _ text => bytes text
  | node _ parts => sizeAll parts

/-- The number of bytes of several trees' text. -/
def sizeAll : List Tree → Nat
  | [] => 0
  | t :: ts => t.size + sizeAll ts

end

mutual

theorem size_eq : ∀ t : Tree, t.size = bytes t.text
  | leaf _ s => by simp [size, text]
  | node _ ts => by rw [size, sizeAll_eq ts]; rfl

theorem sizeAll_eq : ∀ ts : List Tree, sizeAll ts = bytes (textAll ts)
  | [] => rfl
  | t :: ts => by
    rw [sizeAll, size_eq t, sizeAll_eq ts]
    simp

end

/-- No line comment among the leaves goes on after a newline. -/
def CommentsEnd (leaves : List (LeafKind × List Char)) : Prop :=
  ∀ l ∈ leaves, l.1 = .trivia .lineComment → '\n' ∉ l.2

@[simp] theorem commentsEnd_nil : CommentsEnd [] := by
  simp [CommentsEnd]

@[simp] theorem commentsEnd_append (ls ms : List (LeafKind × List Char)) :
    CommentsEnd (ls ++ ms) ↔ CommentsEnd ls ∧ CommentsEnd ms := by
  simp [CommentsEnd, or_imp, forall_and]

@[simp] theorem commentsEnd_cons (l : LeafKind × List Char) (ls : List (LeafKind × List Char)) :
    CommentsEnd (l :: ls) ↔ (l.1 = .trivia .lineComment → '\n' ∉ l.2) ∧ CommentsEnd ls := by
  simp [CommentsEnd]

/-- The tree is a lexeme or a node, not trivia. -/
def isSolid : Tree → Bool
  | leaf (.trivia _) _ => false
  | _ => true

/-- The turn of a part. -/
def turn : Tree → Turn
  | node (.late turn) _ => turn
  | node .typeArguments _ => .types
  | _ => .plain

/-- The tree is an arrow function. -/
def isArrow : Tree → Bool
  | node .arrow _ => true
  | _ => false

mutual

/-- The tree is a look-up or call with `?.` somewhere in its chain. -/
def isChain : Tree → Bool
  | node (.member optional) parts => optional || headIsChain parts
  | node (.index optional) parts => optional || headIsChain parts
  | node (.call optional) parts => optional || headIsChain parts
  | node .nonNull parts => headIsChain parts
  | _ => false

/-- The first of the trees is such a look-up or call. -/
def headIsChain : List Tree → Bool
  | [] => false
  | t :: _ => t.isChain

end

/-- The tree cannot be assigned to. -/
def refusesAssignment : Tree → Bool
  | leaf (.lexeme (.name _)) _ => false
  | leaf _ _ => true
  | node kind _ =>
    match kind with
    | .definition | .call false | .new | .template | .tagged | .element | .fragment | .await => true
    | _ => false

/-- The tree is a literal that may be meant as a pattern. -/
def isDestructuring : Tree → Bool
  | node .object _ | node .array _ => true
  | _ => false

mutual

/-- The number of characters before the first member of an expression that a pattern cannot have,
if there is one. A pattern that is not `assigned` to binds names. -/
def misfit? (assigned : Bool) : Tree → Option Nat
  | node .method _ => some 0
  | node .object parts | node .array parts | node .property parts => misfitAll? assigned parts
  | node .spread parts => if assigned then misfitAll? assigned parts else none
  | _ => none

/-- The same for several trees in a row. -/
def misfitAll? (assigned : Bool) : List Tree → Option Nat
  | [] => none
  | t :: ts => (misfit? assigned t).or ((misfitAll? assigned ts).map (t.text.length + ·))

end

/-! ### Trees cut up in another way -/

/-- An arrow function as its parts. -/
def arrowParts : Tree → List Tree
  | node .arrow parts => parts
  | t => [t]

/-- What a class extends: an expression, and type arguments apart from it. -/
def baseParts : Tree → List Tree
  | node .group parts =>
    match parts.getLast? with
    | some (node .typeArguments types) =>
      [node (.late .body) parts.dropLast, node .typeArguments types]
    | _ => [node (.late .body) [node .group parts]]
  | t => [node (.late .body) [t]]

theorem leavesAll_arrowParts (t : Tree) : leavesAll t.arrowParts = t.leaves := by
  unfold arrowParts
  split <;> simp

theorem leavesAll_baseParts (t : Tree) : leavesAll t.baseParts = t.leaves := by
  unfold baseParts
  split
  · next parts =>
    split
    · next types hlast =>
      obtain ⟨before, rfl⟩ := List.getLast?_eq_some_iff.1 hlast
      simp
    · simp
  · simp

end Tree

end Untranslated.Script
