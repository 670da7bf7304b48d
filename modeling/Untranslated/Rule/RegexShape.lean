import Untranslated.Candidate
import Untranslated.Text.Pattern

/-!
# Patterns as texts

Regular expressions, as literals, as arguments of what takes them, and by their shape.
-/

namespace Untranslated

open Text (Pattern CharClass isBlank trim)

/-- Functions that make a regular expression of a text. -/
def regexConstructors : List String :=
  ["RegExp", "new RegExp"]

/-- Methods that take a pattern. -/
def patternMethods : List String :=
  ["match", "matchAll", "replace", "replaceAll", "search", "split"]

/-- What is found in regular expressions and not in prose: an anchor at the head, a class by its
letter, a special group, a range in brackets. -/
def regexShape : Pattern :=
  let alphanumeric :=
    .one (.union (.between 'A' 'Z') (.union (.between 'a' 'z') (.between '0' '9')))
  let inBrackets := .one (.except (.union (.among [']']) .blank))
  .anyOf [
    .atHead (.literal "^"),
    .within (.inRow [.literal "\\", .oneOf "dDwWsSbB"]),
    .within (.inRow [.literal "(?", .oneOf ":=!<"]),
    .within (.inRow [.literal "[", .optional (.literal "^"), .star inBrackets, alphanumeric,
      .literal "-", alphanumeric, .star inBrackets, .literal "]"])]

/-- Two characters stand next to each other somewhere in a text. -/
def hasPair (a b : Char) : List Char → Bool
  | c :: d :: rest => (c == a && d == b) || hasPair a b (d :: rest)
  | _ => false

/-- The candidate is a regular expression. -/
def Candidate.isRegexPattern (c : Candidate) : Bool :=
  let text := trim c.staticText
  c.delimiter == .regex || c.callee.any regexConstructors.contains ||
    c.callee.any (fun name => name.toList.contains '.' &&
      patternMethods.contains (lastSegment name)) ||
    regexShape.accepts text ||
    (!text.any isBlank && (hasPair '.' '*' text || hasPair '.' '+' text ||
      (text.length > 1 && text.getLast? == some '$')))

end Untranslated
