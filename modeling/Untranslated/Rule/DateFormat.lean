import Untranslated.Candidate
import Untranslated.Text.Pattern

/-!
# Date formats

Patterns that tell how a date or a time is written.
-/

namespace Untranslated

open Text (Pattern trim)

/-- The styles that dates can be written in, by name. -/
def dateStyles : List String :=
  ["short", "long", "medium", "full", "numeric", "2-digit", "narrow"]

/-- The characters of a date format. -/
def dateChars : List Char :=
  "yYMDdHhmsSaAZzEeQWwXx0123456789 :/.,-_[]T'".toList

/-- The characters that separate the parts of a date. -/
def dateSeparators : List Char :=
  " :/.,-_[]T".toList

/-- A part of a date: two to four letters for a year or month, two for anything else. -/
def dateGroup : Pattern :=
  .anyOf <| ["y", "Y", "M"].map (fun c => .repeated 2 2 (.literal c)) ++
    ["D", "d", "H", "h", "m", "s"].map (fun c => .repeated 2 0 (.literal c))

/-- The candidate is a date format. -/
def Candidate.isDateFormat (c : Candidate) : Bool :=
  let text := trim c.staticText
  dateStyles.contains (String.ofList text) ||
    (text.all dateChars.contains && (Pattern.within dateGroup).accepts text &&
      (text.any dateSeparators.contains || (Pattern.plus dateGroup).accepts text))

end Untranslated
