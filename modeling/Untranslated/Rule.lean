import Untranslated.Directive
import Untranslated.Rule.Wordless
import Untranslated.Rule.Location
import Untranslated.Rule.ClassList
import Untranslated.Rule.DateFormat
import Untranslated.Rule.RegexShape
import Untranslated.Rule.Programmatic

/-!
# Rules

The rules that let a candidate through, in the order in which they are asked. A candidate that
no rule lets through is reported.

* `Rule.first?_eq_none_iff`: it is reported exactly if none matches.
-/

namespace Untranslated

/-- A rule that lets candidates through. -/
inductive Rule
  | noWordCharacters
  | urlOrPath
  | nonVisibleAttribute
  | className
  | dateFormat
  | regexPattern
  | programmaticCall
  | ignoreDirective
  deriving DecidableEq, Repr

namespace Rule

/-- All rules in the order in which they are asked. -/
def all : List Rule :=
  [noWordCharacters, urlOrPath, nonVisibleAttribute, className, dateFormat, regexPattern,
   programmaticCall, ignoreDirective]

/-- The name of a rule. -/
def name : Rule → String
  | noWordCharacters => "no-word-characters"
  | urlOrPath => "url-or-path"
  | nonVisibleAttribute => "non-visible-attribute"
  | className => "class-name"
  | dateFormat => "date-format"
  | regexPattern => "regex-pattern"
  | programmaticCall => "programmatic-call"
  | ignoreDirective => "ignore-directive"

/-- The rule lets the candidate through. -/
def matches? (ignores : Ignores) (c : Candidate) : Rule → Bool
  | noWordCharacters => c.isWordless
  | urlOrPath => isUrlOrPath c.staticText
  | nonVisibleAttribute => c.isHiddenAttribute
  | className => c.isClassName
  | dateFormat => c.isDateFormat
  | regexPattern => c.isRegexPattern
  | programmaticCall => c.isProgrammatic
  | ignoreDirective => ignores.contains c.line

/-- The first rule that lets the candidate through. -/
def first? (ignores : Ignores) (c : Candidate) : Option Rule :=
  all.find? (matches? ignores c)

theorem mem_all (r : Rule) : r ∈ all := by
  cases r <;> decide

theorem first?_eq_none_iff {ignores : Ignores} {c : Candidate} :
    first? ignores c = none ↔ ∀ r : Rule, r.matches? ignores c = false := by
  simp [first?, mem_all]

end Rule

end Untranslated
