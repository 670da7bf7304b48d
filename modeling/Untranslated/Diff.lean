import Untranslated.Path
import Untranslated.Text.Lines
import Untranslated.Text.Blank
import Untranslated.Text.Number

/-!
# Diffs

The lines that a unified diff adds to each file. Inside a hunk the counts of its header decide
what a line is, so an added line may look like a header.

* `ChangedLines`: added lines by file, in the order of paths.
* `changedLines`: those of a diff.
-/

namespace Untranslated

open Text (isDecimalDigit trimEnd)

/-! ### Changed lines -/

/-- A line number in its place among ascending ones. -/
def insertLine (n : Nat) : List Nat → List Nat
  | [] => [n]
  | m :: rest =>
    if n < m then n :: m :: rest else if n = m then m :: rest else m :: insertLine n rest

/-- Added lines by file, in the order of paths, the lines of a file in ascending order. -/
structure ChangedLines where
  files : List (List Char × List Nat) := []
  deriving DecidableEq, Repr

namespace ChangedLines

/-- The entry of a path is changed; a new one begins without lines. -/
def updateIn (path : List Char) (f : List Nat → List Nat) :
    List (List Char × List Nat) → List (List Char × List Nat)
  | [] => [(path, f [])]
  | (q, lines) :: rest =>
    match Path.order path q with
    | .lt => (path, f []) :: (q, lines) :: rest
    | .eq => (q, f lines) :: rest
    | .gt => (q, lines) :: updateIn path f rest

/-- The file is known to be changed. -/
def touch (c : ChangedLines) (path : List Char) : ChangedLines :=
  ⟨updateIn path id c.files⟩

/-- A line of the file was added. -/
def add (c : ChangedLines) (path : List Char) (line : Nat) : ChangedLines :=
  ⟨updateIn path (insertLine line) c.files⟩

/-- The added lines of a file. -/
def get? (c : ChangedLines) (path : List Char) : Option (List Nat) :=
  (c.files.find? fun f => Path.order path f.1 == .eq).map (·.2)

end ChangedLines

/-! ### Headers -/

/-- What a hunk says of itself. -/
structure HunkHeader where
  oldCount : Nat
  newStart : Nat
  newCount : Nat
  deriving DecidableEq, Repr

/-- The rest of a text after its head. -/
def after? (head : String) (s : List Char) : Option (List Char) :=
  if head.toList.isPrefixOf s then some (s.drop head.toList.length) else none

/-- The digits at the head of a text, of which there must be one, and the rest. -/
def digits? (s : List Char) : Option (List Char × List Char) :=
  let digits := s.takeWhile isDecimalDigit
  if digits.isEmpty then none else some (digits, s.drop digits.length)

/-- The number that digits write, if they are those of ASCII and it fits 64 bits. -/
def number? (digits : List Char) : Option Nat :=
  if digits.all Char.isDigit then
    let n := digits.foldl (fun n c => 10 * n + (c.toNat - '0'.toNat)) 0
    if n < UInt64.size then some n else none
  else none

/-- A range of a hunk: the digits of its start and those of its length, if it has one. -/
def hunkRange? (s : List Char) : Option (List Char × Option (List Char) × List Char) := do
  let (start, rest) ← digits? s
  match rest with
  | ',' :: more =>
    match digits? more with
    | some (count, rest) => return (start, some count, rest)
    | none => return (start, none, rest)
  | _ => return (start, none, rest)

/-- The header of a hunk. A length that is left out is 1. -/
def hunkHeader? (line : List Char) : Option HunkHeader := do
  let (_, oldCount, rest) ← hunkRange? (← after? "@@ -" line)
  let (newStart, newCount, rest) ← hunkRange? (← after? " +" rest)
  let _ ← after? " @@" rest
  return {
    oldCount := ← oldCount.elim (some 1) number?
    newStart := ← number? newStart
    newCount := ← newCount.elim (some 1) number? }

/-- The new name in the first line of a file's section: what follows the last ` b/`. -/
def sectionTarget? : List Char → Option (List Char)
  | [] => none
  | c :: rest =>
    match sectionTarget? rest with
    | some target => some target
    | none => after? " b/" (c :: rest)

/-- The name a file has after the change; `none` if the file is deleted. -/
def markedTarget? (s : List Char) : Option (List Char) :=
  let name := trimEnd (s.takeWhile (· != '\t'))
  if name = "/dev/null".toList then none else some ((after? "b/" name).getD name)

/-! ### Reading a diff -/

/-- A place in a diff. -/
structure DiffCursor where
  /-- The file whose section this is, if it is known and not deleted. -/
  file : Option (List Char) := none
  /-- The number of the next line of the new file. -/
  newLine : Nat := 0
  /-- How many lines of the old file the hunk still has. -/
  oldRemaining : Nat := 0
  /-- How many lines of the new file the hunk still has. -/
  newRemaining : Nat := 0
  deriving DecidableEq, Repr

namespace DiffCursor

/-- The number after a line number, in 64 bits. -/
def nextLine (n : Nat) : Nat :=
  (n + 1) % UInt64.size

/-- The hunk has lines left. -/
def inHunk (c : DiffCursor) : Bool :=
  c.oldRemaining > 0 || c.newRemaining > 0

/-- A line of a hunk is passed; `none` if the line cannot belong to one. -/
def passHunkLine (c : DiffCursor) : List Char → Option DiffCursor
  | '+' :: _ => some { c with newLine := nextLine c.newLine, newRemaining := c.newRemaining - 1 }
  | '-' :: _ => some { c with oldRemaining := c.oldRemaining - 1 }
  | [] | ' ' :: _ => some { c with
      newLine := nextLine c.newLine
      oldRemaining := c.oldRemaining - 1
      newRemaining := c.newRemaining - 1 }
  | '\\' :: _ => some c
  | _ => none

/-- The hunk is left. -/
def leaveHunk (c : DiffCursor) : DiffCursor :=
  { c with oldRemaining := 0, newRemaining := 0 }

/-- A line outside of hunks is passed. -/
def passHeader (cwd : List Char) (c : DiffCursor) (line : List Char) : DiffCursor :=
  match after? "diff --git " line with
  | some rest => { file := (sectionTarget? rest).map (Path.normalize cwd) }
  | none =>
    match after? "+++ " line with
    | some rest => { c with file := (markedTarget? rest).map (Path.normalize cwd) }
    | none =>
      match after? "@@" line, hunkHeader? line with
      | some _, some header => { c with
          newLine := header.newStart
          oldRemaining := header.oldCount
          newRemaining := header.newCount }
      | some _, none => c.leaveHunk
      | none, _ => c

end DiffCursor

/-- What is known after a line of a diff. -/
def passLine (cwd : List Char) (state : ChangedLines × DiffCursor) (line : List Char) :
    ChangedLines × DiffCursor :=
  let (changed, c) := state
  match if c.inHunk then c.passHunkLine line else none with
  | some next =>
    match c.file, line with
    | some file, '+' :: _ => (changed.add file c.newLine, next)
    | _, _ => (changed, next)
  | none =>
    let c := if c.inHunk then c.leaveHunk else c
    let next := c.passHeader cwd line
    match c.file, after? "@@" line, hunkHeader? line with
    | some file, some _, some _ => (changed.touch file, next)
    | _, _, _ => (changed, next)

/-- The lines that a diff adds, with paths as seen from `cwd`. -/
def changedLines (cwd diff : List Char) : ChangedLines :=
  ((Text.lines diff).foldl (passLine cwd) ({}, {})).1

end Untranslated
