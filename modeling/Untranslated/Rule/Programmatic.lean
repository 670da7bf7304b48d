import Untranslated.Candidate
import Untranslated.Text.Pattern

/-!
# Texts for programs

Queries, arguments of calls that no user sees, and texts that are thrown, looked up or compared.
-/

namespace Untranslated

open Text (Pattern CharClass isAlphanumeric)

/-- Tags of templates that hold another language. -/
def queryTags : List String :=
  ["gql", "graphql", "sql", "css", "keyframes", "createGlobalStyle"]

/-- Calls that write logs or data. -/
def silentCalls : List String :=
  ["console.log", "console.debug", "console.info", "console.warn", "console.error",
   "console.trace", "JSON.stringify", "JSON.parse"]

/-- Functions and methods that take a date format. -/
def dateMethods : List String :=
  ["format", "formatDate", "toLocaleDateString", "toLocaleTimeString", "toLocaleString",
   "DateTimeFormat", "dayjs", "moment", "strftime"]

/-- Methods that look for a value. -/
def searchMethods : List String :=
  ["includes", "indexOf", "lastIndexOf", "startsWith", "endsWith"]

/-- A callee without the words `new` before it. -/
def withoutNew : List Char → List Char
  | 'n' :: 'e' :: 'w' :: ' ' :: rest => withoutNew rest
  | name => name

/-- The callee constructs an error. -/
def isErrorName (callee : String) : Bool :=
  let name := withoutNew callee.toList
  "Error".toList.isSuffixOf name && name.all fun c => isAlphanumeric c || c == '.'

/-- No user sees what the callee is given. -/
def isSilentCallee (callee : String) : Bool :=
  silentCalls.contains callee || dateMethods.contains (lastSegment callee) ||
    isErrorName callee ||
    (callee.toList.contains '.' && searchMethods.contains (lastSegment callee))

/-- The text before what is thrown or is a case. -/
def thrownHead : Pattern :=
  .inRow [
    .optional (.atTail (.one (.except (.union .word (.among ['$']))))),
    .anyOf [.literal "throw", .literal "case"]]

/-- The text before what is looked up. -/
def lookupHead : Pattern :=
  .atTail (.inRow [.one (.union .word (.among "$])".toList)), .star (.one .blank), .literal "["])

/-- The signs that compare. -/
def comparisons : List (List Char) :=
  ["===", "!==", "==", "!="].map String.toList

/-- The candidate is a text for programs. -/
def Candidate.isProgrammatic (c : Candidate) : Bool :=
  c.tag.any (fun tag => queryTags.contains tag || "styled.".toList.isPrefixOf tag.toList) ||
    c.callee.any isSilentCallee ||
    thrownHead.accepts c.before || lookupHead.accepts c.before ||
    comparisons.any (·.isSuffixOf c.before) || comparisons.any (·.isPrefixOf c.after)

end Untranslated
