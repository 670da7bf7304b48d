import Untranslated.Scan

/-!
# Runs

A run of the program: the configuration that governs a directory, a scan with it, and what is
printed.

* `governing?`: the configuration file above a directory.
* `run`: a run in a tree of files.
-/

namespace Untranslated

/-- The name of configuration files. -/
def configFileName : List Char := ".intllintrc.json".toList

/-- The name of the directory of a repository. -/
def repositoryName : List Char := ".git".toList

/-- A directory and those above it, from the inside out. -/
def ancestors (p : List Char) : List (List Char) :=
  let names := FileTree.names p
  (List.range (names.length + 1)).map fun n =>
    '/' :: ['/'].intercalate (names.take (names.length - n))

/-- The configuration file that governs, looked for in directories one after another. A
repository ends the search. -/
def governing? (t : FileTree) : List (List Char) → Option (List Char)
  | [] => none
  | p :: rest =>
    let file := FileTree.entryPath p configFileName
    if (t.at? file).isSome then some file
    else if (t.at? (FileTree.entryPath p repositoryName)).isSome then none
    else governing? t rest

/-- The paths where a configuration for a directory is looked for. -/
def configPlaces (cwd : List Char) : List (List Char) :=
  (ancestors cwd).flatMap fun p =>
    [FileTree.entryPath p configFileName, FileTree.entryPath p repositoryName]

/-- Why a run cannot begin. -/
inductive StartFault
  | unreadable (path : List Char) (fault : ReadFault)
  | undecodable (path : List Char)
  | invalid (fault : Config.Fault)
  deriving DecidableEq, Repr

/-- A character as it is written in quotes. -/
def quotedChar (c : Char) : List Char :=
  match c with
  | '\x00' => ['\\', '0']
  | '\t' => ['\\', 't']
  | '\n' => ['\\', 'n']
  | '\r' => ['\\', 'r']
  | '"' | '\'' | '\\' => ['\\', c]
  | _ =>
    if c.toNat < 0x20 || (0x7f ≤ c.toNat && c.toNat < 0xa0) then
      "\\u\x7b".toList ++ Nat.toDigits 16 c.toNat ++ ['\x7d']
    else [c]

/-- A path in quotes. -/
def quoted (p : List Char) : List Char :=
  '"' :: p.flatMap quotedChar ++ ['"']

/-- What is said of a fault: what could not be done, without the chain of causes behind it. -/
def StartFault.message : StartFault → List Char
  | unreadable path _ => "Failed to read config file: ".toList ++ quoted path
  | undecodable path => "Failed to parse config file: ".toList ++ quoted path
  | invalid fault => fault.summary.toList

/-- The configuration for a directory, and the file it comes from. -/
def loadConfig (t : FileTree) (cwd : List Char) :
    Except StartFault (Config × Option (List Char)) :=
  match governing? t (ancestors cwd) with
  | none => .ok ({}, none)
  | some path =>
    match t.read path with
    | .error fault => .error (.unreadable path fault)
    | .ok s =>
      match Config.read? s with
      | none => .error (.undecodable path)
      | some config =>
        match config.fault? with
        | some fault => .error (.invalid fault)
        | none => .ok (config, some path)

/-- What a run leaves behind. -/
structure RunResult where
  status : ExitStatus
  stdout : List Char
  stderr : List Char
  /-- What was asked of `git`, if it was asked. -/
  request : Option DiffRequest
  /-- An offset fell inside a character of a file. -/
  aborted : Bool
  deriving DecidableEq, Repr

/-- The exit code of a run; one that is aborted ends in a panic. -/
def RunResult.exitCode (r : RunResult) : Nat :=
  if r.aborted then 101 else r.status.code

/-- A run of the program in a tree of files, where `diff` answers for `git`. -/
def run (t : FileTree) (diff : DiffRequest → Except DiffFault (List Char)) (colours : Bool)
    (cwd : List Char) (a : Arguments) : RunResult :=
  match loadConfig t cwd with
  | .error fault =>
    { status := .error, stdout := [], stderr := "Error: ".toList ++ fault.message ++ ['\n']
      request := none, aborted := false }
  | .ok (config, path) =>
    let w : Workspace := { tree := t, read := t.read, diff, cwd, config, verbose := a.verbose }
    let result := scan w a
    let notes := (path.map fun p => w.say (.usingConfig p)).getD [] ++ result.notes
    { status := result.outcome.status
      stdout := result.outcome.output colours
      stderr := notes.flatMap (Note.text colours) ++ result.outcome.errorOutput colours
      request := result.request
      aborted := result.outcome == .aborted }

end Untranslated
