import Untranslated.Classification
import Untranslated.DiffSource
import Untranslated.FileTree

/-!
# Reports

What a scan finds, and how it is told: violations by file, one on a line, then their number.
-/

namespace Untranslated

/-- The violations of a file. -/
structure FileReport where
  path : List Char
  /-- The path as it is shown. -/
  shown : List Char
  violations : List Violation
  deriving DecidableEq, Repr

/-- What a scan comes to. -/
inductive Outcome
  | noFiles
  | noChangedLines
  | diffFailed (fault : DiffFault)
  | clean (filesScanned : Nat)
  | violations (reports : List FileReport) (filesScanned : Nat)
  /-- An offset fell inside a character of a file. -/
  | aborted
  deriving DecidableEq, Repr

/-- What is said besides the outcome. -/
inductive Note
  | usingConfig (path : List Char)
  | callingGit (arguments : List String)
  | skippingDirectory (shown : List Char)
  | cannotRead (shown : List Char) (fault : ReadFault)
  | cannotParse (shown : List Char) (line : Nat)
  /-- The number of files that could not be parsed. -/
  | unparsed (count : Nat)
  deriving DecidableEq, Repr

/-- How a run of the program ends. -/
inductive ExitStatus
  /-- Nothing is to be reported. -/
  | success
  /-- There are violations, or there is no diff. -/
  | failure
  /-- The run could not begin. -/
  | error
  deriving DecidableEq, Repr

/-- The exit code that stands for a status. -/
def ExitStatus.code : ExitStatus → Nat
  | success => 0
  | failure => 1
  | error => 2

/-- How a run with an outcome ends. -/
def Outcome.status : Outcome → ExitStatus
  | noFiles | noChangedLines | clean _ => .success
  | diffFailed _ | violations _ _ | aborted => .failure

/-! ### Texts -/

/-- How text is set off on a terminal. -/
inductive Paint
  | cyan
  | green
  | red
  | boldCyan
  | boldYellow
  | boldRed
  deriving DecidableEq, Repr

/-- The code of a paint. -/
def Paint.code : Paint → String
  | cyan => "36"
  | green => "32"
  | red => "31"
  | boldCyan => "1;36"
  | boldYellow => "1;33"
  | boldRed => "1;31"

/-- The text in a paint, where colours are on. -/
def painted (colours : Bool) (paint : Paint) (s : String) : List Char :=
  if colours then ("\x1b[" ++ paint.code ++ "m" ++ s ++ "\x1b[0m").toList else s.toList

/-- A line of good news. -/
def goodNews (colours : Bool) (s : String) : List Char :=
  painted colours .green "✓" ++ ' ' :: painted colours .green s ++ ['\n']

/-- A violation in a file. -/
def Violation.lineText (shown : List Char) (v : Violation) : List Char :=
  shown ++ ':' :: (toString v.line).toList ++ " -> \"".toList ++ v.text ++ "\"\n".toList

/-- The violations of a file, one on a line. -/
def FileReport.text (r : FileReport) : List Char :=
  r.violations.flatMap (·.lineText r.shown)

/-- The violations of several files, with a blank line between files, and their number. -/
def reportText (colours : Bool) (reports : List FileReport) : List Char :=
  if reports.isEmpty then []
  else
    let total := (reports.flatMap FileReport.violations).length
    let summary :=
      toString total ++ " violation(s) in " ++ toString reports.length ++ " file(s)"
    ['\n'].intercalate (reports.map FileReport.text) ++ '\n' :: painted colours .red "✘" ++
      ' ' :: painted colours .boldRed summary ++ ['\n']

/-- What is printed for an outcome. -/
def Outcome.output (colours : Bool) : Outcome → List Char
  | noFiles => goodNews colours "No files to scan"
  | noChangedLines => goodNews colours "No changed lines to scan"
  | clean n => goodNews colours ("Checked " ++ toString n ++ " source " ++
      (if n = 1 then "file" else "files") ++
      " - no non-internationalized user-visible text found")
  | violations reports _ => reportText colours reports
  | diffFailed _ | aborted => []

/-- What is printed as an error for an outcome. -/
def Outcome.errorOutput (colours : Bool) : Outcome → List Char
  | diffFailed fault => painted colours .boldRed "error:" ++ ' ' :: fault.message ++ ['\n']
  | _ => []

/-- A note as a line. Of a script that cannot be parsed it names the line, not what is wrong
there. -/
def Note.text (colours : Bool) : Note → List Char
  | usingConfig path => note ++ " using config ".toList ++ path ++ ['\n']
  | callingGit arguments =>
    note ++ (" git " ++ " ".intercalate arguments).toList ++ ['\n']
  | skippingDirectory shown => warning ++ " Skipping directory ".toList ++ shown ++ ['\n']
  | cannotRead shown fault =>
    warning ++ " Cannot read ".toList ++ shown ++ (": " ++ fault.message).toList ++ ['\n']
  | cannotParse shown line =>
    warning ++ " Cannot parse ".toList ++ shown ++ (": line " ++ toString line).toList ++ ['\n']
  | unparsed count =>
    warning ++ (" " ++ toString count ++ " file(s) could not be parsed (use ").toList ++
      painted colours .cyan "-v" ++ " for details)\n".toList
where
  note : List Char := painted colours .boldCyan "note:"
  warning : List Char := painted colours .boldYellow "warning:"

end Untranslated
