import Untranslated.Candidate
import Untranslated.Text.Pattern

/-!
# Texts without words

A text without letters needs no translation. The letters of a character entity, such as those
of `&nbsp;`, do not count.
-/

namespace Untranslated

open Text (Pattern CharClass containsAlphabetic)

/-- What stands between the marks of a character entity: a name or a number. -/
def entityBody : Pattern :=
  .anyOf [
    .plus (.one (.union (.between 'A' 'Z') (.between 'a' 'z'))),
    .inRow [.literal "#", .plus (.one .digit)],
    .inRow [.literal "#x",
      .plus (.one (.union (.between '0' '9') (.union (.between 'A' 'F') (.between 'a' 'f'))))]]

/-- The length of the entity at the head of a text. -/
def entityLength? : List Char → Option Nat
  | '&' :: rest =>
    let body := rest.takeWhile (· != ';')
    if body.length < rest.length && entityBody.accepts body then some (body.length + 2) else none
  | _ => none

/-- A text with a space for each entity, after `skip` characters that are left out. -/
def replaceEntities (skip : Nat) : List Char → List Char
  | [] => []
  | c :: rest =>
    match skip with
    | skip + 1 => replaceEntities skip rest
    | 0 =>
      match entityLength? (c :: rest) with
      | some n => ' ' :: replaceEntities (n - 1) rest
      | none => c :: replaceEntities 0 rest

/-- The candidate has no letters besides those of entities. -/
def Candidate.isWordless (c : Candidate) : Bool :=
  !containsAlphabetic (replaceEntities 0 c.staticText)

end Untranslated
