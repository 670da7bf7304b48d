import Untranslated.Candidate
import Untranslated.Text.Pattern

/-!
# Locations

Addresses and paths, and the attributes that hold them or are never shown at all.
-/

namespace Untranslated

open Text (Pattern CharClass isBlank trim)

/-- A letter of the ASCII alphabet. -/
def asciiLetter : CharClass :=
  .union (.between 'A' 'Z') (.between 'a' 'z')

/-- How an address or a path begins. -/
def locationHead : Pattern :=
  .atHead <| .anyOf [
    .inRow [.one asciiLetter,
      .star (.one (.union asciiLetter (.union (.between '0' '9') (.among "+.-".toList)))),
      .literal "://"],
    .inRow [.anyOf [.inRow [.literal "http", .optional (.literal "s")], .literal "mailto",
      .literal "tel", .literal "data", .literal "blob"], .literal ":"],
    .literal "/", .literal "./", .literal "../"]

/-- An address or a path. What holds a blank is prose. -/
def isUrlOrPath (text : List Char) : Bool :=
  let text := trim text
  !text.any isBlank && locationHead.accepts text

/-- Attributes that are never shown to a user. -/
def hiddenAttributes : List String :=
  ["id", "key", "name", "value", "type", "style", "ref", "role", "aria-hidden", "htmlFor", "for",
   "testId", "data-testid", "data-test", "data-cy", "method", "target", "rel", "autoComplete",
   "inputMode", "lang", "dir", "tabIndex", "encType"]

/-- Attributes that hold the place of something. -/
def routingAttributes : List String :=
  ["href", "to", "src", "action", "path", "as"]

/-- The attribute handles an event: `on` and a capital letter. -/
def isEventHandler (name : String) : Bool :=
  match name.toList with
  | 'o' :: 'n' :: c :: _ => 'A' ≤ c && c ≤ 'Z'
  | _ => false

/-- The candidate is the value of an attribute that is not shown. -/
def Candidate.isHiddenAttribute (c : Candidate) : Bool :=
  c.kind == .attributeValue && c.attributeName.any fun name =>
    hiddenAttributes.contains name || "data-".toList.isPrefixOf name.toList ||
      isEventHandler name || (routingAttributes.contains name && isUrlOrPath c.staticText)

end Untranslated
