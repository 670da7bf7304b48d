import Untranslated.Text.Lines
import Untranslated.Text.Blank

/-!
# Directives

Comments that tell an inspection to let lines through. A directive stands right after the mark
that begins a comment; it is looked for in every line of a script, not only in comments.

* `directives`: those of a line, from left to right.
* `Ignores.ofSource`: the lines that a script lets through.
-/

namespace Untranslated

open Text (isBlank trim)

/-- What a comment can ask for. -/
inductive Directive
  /-- The line of the comment is let through. -/
  | ignoreLine
  /-- The next line is let through. -/
  | ignoreNextLine
  /-- All lines from here on are let through. -/
  | disable
  /-- Lines after this one count again. -/
  | enable
  deriving DecidableEq, Repr

/-- The name a directive is written with. -/
def Directive.name : Directive → String
  | ignoreLine => "intl-lint-ignore-line"
  | ignoreNextLine => "intl-lint-ignore-next-line"
  | disable => "intl-lint-disable"
  | enable => "intl-lint-enable"

/-- The directive with a name, blanks around it aside. -/
def Directive.ofName? (name : List Char) : Option Directive :=
  [ignoreLine, ignoreNextLine, disable, enable].find? fun d => d.name.toList == trim name

/-- What all names begin with. -/
def directiveMark : List Char := "intl-lint-".toList

/-- The rest of a text that begins a comment. -/
def afterCommentMark? : List Char → Option (List Char)
  | '/' :: '/' :: rest => some rest
  | '/' :: '*' :: rest => some rest
  | _ => none

/-- The name at the head of a text that begins a comment: the mark and all small letters and
dashes after it, of which there must be one. -/
def directiveNameAt? (s : List Char) : Option (List Char) := do
  let rest := (← afterCommentMark? s).dropWhile isBlank
  if directiveMark.isPrefixOf rest then
    let tail := (rest.drop directiveMark.length).takeWhile fun c =>
      ('a' ≤ c && c ≤ 'z') || c == '-'
    if tail.isEmpty then none else some (directiveMark ++ tail)
  else none

/-- The directives of a line from left to right. -/
def directives : List Char → List Directive
  | [] => []
  | c :: rest =>
    ((directiveNameAt? (c :: rest)).bind Directive.ofName?).toList ++ directives rest

/-! ### Lines that are let through -/

/-- Lines that are let through: single ones, and ranges, of which the last may have no end. -/
structure Ignores where
  lines : List Nat := []
  ranges : List (Nat × Nat) := []
  /-- Where the range that is open begins. -/
  openFrom : Option Nat := none
  deriving Repr

namespace Ignores

/-- The line is let through. -/
def contains (i : Ignores) (line : Nat) : Bool :=
  i.lines.contains line || i.ranges.any (fun r => r.1 ≤ line && line ≤ r.2) ||
    i.openFrom.any (· ≤ line)

/-- A directive on a line takes effect. A range that is open is not opened again, and one that
is closed not closed again. -/
def apply (line : Nat) (i : Ignores) : Directive → Ignores
  | .ignoreLine => { i with lines := i.lines ++ [line] }
  | .ignoreNextLine => { i with lines := i.lines ++ [line + 1] }
  | .disable => { i with openFrom := i.openFrom.or (some line) }
  | .enable =>
    match i.openFrom with
    | some start => { i with ranges := i.ranges ++ [(start, line)], openFrom := none }
    | none => i

/-- The directives on lines from `number` on take effect. -/
def applyLines (number : Nat) (i : Ignores) : List (List Char) → Ignores
  | [] => i
  | line :: rest => applyLines (number + 1) ((directives line).foldl (apply number) i) rest

/-- The lines that a script lets through. -/
def ofSource (source : List Char) : Ignores :=
  applyLines 1 {} (Text.lines source)

end Ignores

end Untranslated
