import Untranslated.Options

/-!
# Candidates

A literal that could be shown to a user, with what the rules need to decide on it.
-/

namespace Untranslated

/-- Where a candidate was found. -/
inductive Kind
  /-- Text between tags, or a literal in braces between tags. -/
  | text
  /-- The value of an attribute that is shown. -/
  | attributeValue
  /-- An argument of a call that shows it. -/
  | call
  deriving DecidableEq, Repr

/-- What a literal is enclosed in. -/
inductive Delimiter
  /-- Nothing: text between tags. -/
  | none
  | quote (mark : Char)
  | template
  | regex
  deriving DecidableEq, Repr

/-- A literal that could be shown to a user. -/
structure Candidate where
  kind : Kind
  /-- The line of its first character, counted from 1. -/
  line : Nat
  /-- Its content without delimiters and outer blanks. -/
  text : List Char
  /-- Its content with a space for each substitution. -/
  staticText : List Char
  delimiter : Delimiter
  /-- The attribute whose value it is. -/
  attributeName : Option String
  /-- The innermost call it is an argument of. -/
  callee : Option String
  /-- The tag of the template it is. -/
  tag : Option String
  /-- The text right before it. -/
  before : List Char
  /-- The text right after it. -/
  after : List Char
  deriving DecidableEq, Repr

/-- The last part of the callee's name. -/
def Candidate.method (c : Candidate) : Option String :=
  c.callee.map lastSegment

end Untranslated
