import Untranslated.Candidate
import Untranslated.Text.Pattern

/-!
# Class lists

Class names of style sheets: the attributes and functions that take them, and the shape of
their lists.
-/

namespace Untranslated

open Text (Pattern CharClass words)

/-- A small letter or a digit. -/
def smallLetterOrDigit : CharClass :=
  .union (.between 'a' 'z') (.between '0' '9')

/-- A class name: variants that end in colons, marks of importance and of negation, a word, and
pieces after dashes and slashes. -/
def className : Pattern :=
  let variantChar := .one (.union smallLetterOrDigit (.among "-[]".toList))
  let pieceChar := .one (.union smallLetterOrDigit (.among ".[]#%".toList))
  .inRow [
    .star (.inRow [variantChar, .plus variantChar, .literal ":"]),
    .optional (.literal "!"),
    .optional (.literal "-"),
    .one (.between 'a' 'z'),
    .star (.one smallLetterOrDigit),
    .star (.inRow [.oneOf "-/", .plus pieceChar])]

/-- The name cannot be a word of prose: it has a variant, a bracket or a digit. -/
def isStrongClassName (token : List Char) : Bool :=
  token.contains ':' || token.contains '[' || token.any Char.isDigit

/-- The name has several parts. -/
def isDashedClassName (token : List Char) : Bool :=
  token.contains '-' || token.contains '/'

/-- A list of class names: one of them cannot be prose, or two have several parts. -/
def looksLikeClassList (text : List Char) : Bool :=
  let tokens := words text
  !tokens.isEmpty && tokens.all className.accepts &&
    (tokens.any isStrongClassName || (tokens.filter isDashedClassName).length ≥ 2)

/-- Functions that join class names. -/
def classHelpers : List String :=
  ["cn", "clsx", "classNames", "cx", "twMerge", "cva", "tw"]

/-- The attribute holds class names. -/
def isClassAttribute (name : String) : Bool :=
  name == "className" || name == "class" || "ClassName".toList.isSuffixOf name.toList ||
    "Class".toList.isSuffixOf name.toList

/-- The candidate is a class name or a list of them. -/
def Candidate.isClassName (c : Candidate) : Bool :=
  c.method.any classHelpers.contains ||
    c.attributeName.any fun name => isClassAttribute name || looksLikeClassList c.staticText

end Untranslated
