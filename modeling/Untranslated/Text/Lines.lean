import Untranslated.Text.Bytes

/-!
# Lines

Two ways to count lines. A reader of scripts ends a line at a newline, at a carriage return and
at both together; a reader of directives and diffs knows newlines only.

* `lineAt`: the line of a byte offset, where carriage returns count.
* `lines`: the lines of a text, where only newlines count.
-/

namespace Untranslated.Text

/-- The number of line ends at the head of a text that end before `offset` or at it. A line
that would begin at the end of the text is none. -/
def lineEndsBefore : Nat → List Char → Nat
  | _, [] => 0
  | offset, '\r' :: '\n' :: rest =>
    if offset < 2 || rest.isEmpty then 0 else 1 + lineEndsBefore (offset - 2) rest
  | offset, c :: rest =>
    if offset < c.utf8Size then 0
    else
      let more := lineEndsBefore (offset - c.utf8Size) rest
      if (c == '\n' || c == '\r') && !rest.isEmpty then 1 + more else more

/-- The line of a byte offset, counted from 1. -/
def lineAt (offset : Nat) (s : List Char) : Nat :=
  1 + lineEndsBefore offset s

/-- The pieces between newlines. -/
def splitLines : List Char → List (List Char)
  | [] => [[]]
  | '\n' :: rest => [] :: splitLines rest
  | c :: rest =>
    match splitLines rest with
    | [] => [[c]]
    | line :: more => (c :: line) :: more

/-- The line without the carriage return at its end. -/
def dropReturn : List Char → List Char
  | [] => []
  | ['\r'] => []
  | c :: rest => c :: dropReturn rest

/-- The pieces between newlines as lines: a carriage return before a newline belongs to it, and
nothing follows a final newline. -/
def linesOf : List (List Char) → List (List Char)
  | [] => []
  | [last] => if last.isEmpty then [] else [last]
  | piece :: rest => dropReturn piece :: linesOf rest

/-- The lines of a text without their ends. -/
def lines (s : List Char) : List (List Char) :=
  linesOf (splitLines s)

end Untranslated.Text
