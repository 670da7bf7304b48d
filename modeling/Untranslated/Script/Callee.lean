import Untranslated.Script.Tree

/-!
# Names of callees

The dotted name of what is called. Parentheses, assertions that a value is not null, and
optional look-ups do not hide a name; a member of something without a name keeps its own.

* `Tree.path`: the name of an expression; `path_nonNull` is one of these rules.
-/

namespace Untranslated.Script.Tree

/-- The name that a leaf at the end of a list of parts spells. -/
def lastName : List Tree → Option String
  | [] => none
  | [leaf (.lexeme (.name spelling)) _] => some spelling
  | _ :: parts => lastName parts

/-- A member's name after the name of its object, if that has one. -/
def joinPath (object : Option String) (member : String) : String :=
  match object with
  | some name => name ++ "." ++ member
  | none => member

mutual

/-- The dotted name of an expression, if it has one. -/
def path : Tree → Option String
  | leaf (.lexeme (.name spelling)) _ => some spelling
  | leaf (.lexeme .this) _ => some "this"
  | leaf _ _ => none
  | node (.member _) parts => (lastName parts).map (joinPath (headPath parts))
  | node .nonNull parts => headPath parts
  | node .paren parts => if (parts.filter isSolid).length == 3 then tailPath parts else none
  | node _ _ => none

/-- The name of the first tree that is not trivia. -/
def headPath : List Tree → Option String
  | [] => none
  | t :: ts => if t.isSolid then path t else headPath ts

/-- The name of the first tree after the head that is not trivia. -/
def tailPath : List Tree → Option String
  | [] => none
  | _ :: ts => headPath ts

end

theorem path_nonNull (parts : List Tree) : (node .nonNull parts).path = headPath parts := rfl

end Untranslated.Script.Tree
