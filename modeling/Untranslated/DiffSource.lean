import Untranslated.CommandLine
import Untranslated.Diff
import Untranslated.Text.Utf8

/-!
# Where diffs come from

What is asked of `git`, and what its answer means.
-/

namespace Untranslated

open Text (trim)

/-- Which changes are asked for. -/
structure DiffRequest where
  staged : Bool := false
  base : Option String := none
  head : Option String := none
  files : List String := []
  deriving DecidableEq, Repr

namespace DiffRequest

/-- The arguments that `git` is called with. -/
def gitArguments (r : DiffRequest) : List String :=
  let range := match r.base, r.head with
    | some base, some head => [base ++ "..." ++ head]
    | _, _ => []
  ["diff", "-U0"] ++ (if r.staged then ["--cached"] else []) ++ range ++
    (if r.files.isEmpty then [] else "--" :: r.files)

/-- The request that a command line makes. -/
def ofArguments (a : Arguments) : DiffRequest :=
  { staged := a.staged, base := a.base, head := a.head, files := a.files }

end DiffRequest

/-- Why there is no diff. -/
inductive DiffFault
  /-- The program cannot be started. -/
  | notStarted (detail : List Char)
  /-- The program reports a failure. -/
  | failed (detail : List Char)
  deriving DecidableEq, Repr

/-- What a fault is reported as. -/
def DiffFault.message : DiffFault → List Char
  | notStarted detail => "Unable to read git diff: ".toList ++ detail
  | failed detail => "Unable to read git diff: ".toList ++ detail

/-- How a run of `git` ended. -/
structure GitReply where
  stdout : List UInt8
  stderr : List UInt8
  /-- The exit code; none if the program was killed. -/
  code : Option Nat
  deriving DecidableEq, Repr

namespace GitReply

/-- What is said where `git` is not installed. -/
def notInstalled : DiffFault :=
  .notStarted "failed to execute git: No such file or directory (os error 2)".toList

/-- The exit code as text. -/
def codeText (r : GitReply) : String :=
  r.code.elim "-1" toString

/-- The diff, or what `git` says of its failure: on its error output, else on its output, else
by its exit code. -/
def diff (r : GitReply) : Except DiffFault (List Char) :=
  let stdout := Text.decodeLossy r.stdout
  if r.code == some 0 then .ok stdout
  else
    let stderr := trim (Text.decodeLossy r.stderr)
    if !stderr.isEmpty then .error (.failed stderr)
    else if !(trim stdout).isEmpty then .error (.failed (trim stdout))
    else .error (.failed ("git diff exited with status " ++ r.codeText).toList)

end GitReply

end Untranslated
