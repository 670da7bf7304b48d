import Untranslated.Config
import Untranslated.Report
import Untranslated.Target

/-!
# Scans

From what a user asks for to the files that are looked at, the lines that count in them, and
what is found.

* `targets`: the files that are looked at.
* `jobs`: those of them that the diff changes, with the changed lines, if only these count.
* `scan`: what a scan comes to, with all that is said on the way.
-/

namespace Untranslated

/-- What a scan works on. -/
structure Workspace where
  /-- The files that there are. -/
  tree : FileTree
  /-- The text of a file. -/
  read : List Char → Except ReadFault (List Char)
  /-- The diff that a request is answered with. -/
  diff : DiffRequest → Except DiffFault (List Char)
  cwd : List Char
  config : Config
  verbose : Bool

/-- A file to look at and, if not all lines count, those that do. -/
structure Job where
  path : List Char
  only : Option (List Nat)
  deriving DecidableEq, Repr

/-- Only changed lines count. -/
def Arguments.diffOnly (a : Arguments) : Bool :=
  a.diff || a.staged

namespace Workspace

/-- Which files are looked at. -/
def filter (w : Workspace) : TargetFilter :=
  .ofIgnores w.cwd (w.config.ignores.map String.toList)

/-- The directory that is scanned. -/
def sourceRoot (w : Workspace) : List Char :=
  Path.normalize w.cwd w.config.sourceRoot.toList

/-- The path as it is shown. -/
def shown (w : Workspace) (p : List Char) : List Char :=
  Path.display w.cwd p

/-- What is said if the user wants to know more. -/
def say (w : Workspace) (note : Note) : List Note :=
  if w.verbose then [note] else []

/-- The paths of files that a user names. -/
def named (w : Workspace) (files : List String) : List (List Char) :=
  files.map fun f => Path.normalize w.cwd f.toList

/-- What is said of directories that a user names. -/
def directoryNotes (w : Workspace) (files : List String) : List Note :=
  ((w.named files).filter w.tree.isDirectory).flatMap
    fun p => w.say (.skippingDirectory (w.shown p))

/-- The files that a user names and that are looked at, each in its first place. -/
def explicitTargets (w : Workspace) (files : List String) : List (List Char) :=
  ((w.named files).filter fun p => w.tree.isFile p && w.filter.accepts p).eraseDups

/-- The files below the source root that are looked at. -/
def rootTargets (w : Workspace) : List (List Char) :=
  (w.tree.filesBelow w.sourceRoot).filter w.filter.accepts

/-- The files that are looked at if all lines count. -/
def targets (w : Workspace) (a : Arguments) : List (List Char) :=
  if a.files.isEmpty then w.rootTargets else w.explicitTargets a.files

/-- The jobs if only changed lines count: named files that are changed, or all changed files. -/
def changedJobs (w : Workspace) (a : Arguments) (changed : ChangedLines) : List Job :=
  if a.files.isEmpty then
    (changed.files.filter fun f => w.filter.accepts f.1).map fun f => ⟨f.1, some f.2⟩
  else
    (w.explicitTargets a.files).filterMap fun p =>
      (changed.get? p).map fun lines => ⟨p, some lines⟩

end Workspace

/-! ### Looking at files -/

/-- What became of a file. -/
inductive Inspection
  | reported (violations : List Violation)
  | unreadable (fault : ReadFault)
  | unparsed (line : Nat)
  /-- An offset fell inside a character. -/
  | aborted

/-- The file could not be parsed. -/
def Inspection.isUnparsed : Inspection → Bool
  | unparsed _ => true
  | _ => false

/-- The file could not be worked on. -/
def Inspection.isAborted : Inspection → Bool
  | aborted => true
  | _ => false

namespace Workspace

/-- The dialect of a file. -/
def dialectOf (p : List Char) : Script.Dialect :=
  .ofExtension ((Path.extension? p).map String.ofList)

/-- What is found in a file. -/
def inspect (w : Workspace) (job : Job) : Inspection :=
  match w.read job.path with
  | .error fault => .unreadable fault
  | .ok source =>
    match classify w.config.options (dialectOf job.path) source job.only with
    | .ok found => .reported found
    | .error (.rejected line _) => .unparsed line
    | .error .splitCharacter => .aborted

/-- What became of each file. -/
def inspectAll (w : Workspace) (jobs : List Job) : List (Job × Inspection) :=
  jobs.map fun job => (job, w.inspect job)

/-- The report of a file, if there is something to report. -/
def report? (w : Workspace) (job : Job) : Inspection → Option FileReport
  | .reported [] => none
  | .reported found => some ⟨job.path, w.shown job.path, found⟩
  | _ => none

/-- What is said of a file. -/
def inspectionNotes (w : Workspace) (job : Job) : Inspection → List Note
  | .unreadable fault => w.say (.cannotRead (w.shown job.path) fault)
  | .unparsed line => w.say (.cannotParse (w.shown job.path) line)
  | _ => []

/-- What looking at files comes to. -/
def outcomeOf (w : Workspace) (seen : List (Job × Inspection)) : Outcome :=
  if seen.any (·.2.isAborted) then .aborted
  else
    let reports := seen.filterMap fun (job, inspection) => w.report? job inspection
    if reports.isEmpty then .clean seen.length else .violations reports seen.length

/-- What is said while looking at files. -/
def notesOf (w : Workspace) (seen : List (Job × Inspection)) : List Note :=
  let unparsed := (seen.filter (·.2.isUnparsed)).length
  seen.flatMap (fun (job, inspection) => w.inspectionNotes job inspection) ++
    if unparsed > 0 && !w.verbose then [.unparsed unparsed] else []

end Workspace

/-! ### Scans -/

/-- What a scan comes to, and what is said on the way. -/
structure ScanResult where
  outcome : Outcome
  notes : List Note
  /-- What was asked of `git`, if it was asked. -/
  request : Option DiffRequest
  deriving DecidableEq, Repr

/-- The result of looking at files, after what was said and asked before. -/
def Workspace.resultOf (w : Workspace) (before : List Note) (request : Option DiffRequest)
    (jobs : List Job) : ScanResult :=
  let seen := w.inspectAll jobs
  ⟨w.outcomeOf seen, before ++ w.notesOf seen, request⟩

/-- A scan. -/
def scan (w : Workspace) (a : Arguments) : ScanResult :=
  let before := w.directoryNotes a.files
  if !a.files.isEmpty && (w.explicitTargets a.files).isEmpty then ⟨.noFiles, before, none⟩
  else if a.diffOnly then
    let request := DiffRequest.ofArguments a
    let before := before ++ w.say (.callingGit request.gitArguments)
    match w.diff request with
    | .error fault => ⟨.diffFailed fault, before, some request⟩
    | .ok diff =>
      let jobs := w.changedJobs a (changedLines w.cwd diff)
      if jobs.isEmpty then ⟨.noChangedLines, before, some request⟩
      else w.resultOf before (some request) jobs
  else
    let jobs := (w.targets a).map fun p => ⟨p, none⟩
    if jobs.isEmpty then ⟨.noFiles, before, none⟩
    else w.resultOf before none jobs

end Untranslated
