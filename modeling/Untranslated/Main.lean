import Untranslated.Run

/-!
# The program

The command line on real files. No other program is called and no directory is walked: a diff is
read from standard input, and without `--diff` and without files the standard input lists the files
of the project, one on a line. So the program is called as `git diff -U0 | untranslated --diff` or
`git ls-files | untranslated`. How the program is called, its version and what is said of a command
line that is not understood are texts of its own.
-/

namespace Untranslated

/-- How the program is called. -/
def usage : String :=
  "Usage: untranslated [FILES]... [--diff|--diff-only] [--staged] [--base REF] [--head REF] [-v]\n"

/-- What is said where a command line is not understood. -/
def CommandLine.Stop.message : CommandLine.Stop → String
  | .help | .version => ""
  | .unknownArgument => "unexpected argument"
  | .missingValue => "a value is required for an option but none was supplied"
  | .unneededValue => "unexpected value for a flag"
  | .repeatedArgument => "an argument cannot be used multiple times"

/-- All that a stream still holds, after the bytes `before`. -/
partial def readRest (stream : IO.FS.Stream) (before : ByteArray) : IO ByteArray := do
  let more ← stream.read 65536
  if more.isEmpty then return before else readRest stream (before ++ more)

/-- What stands at a path on disk: a file with its bytes, or a directory whose entries are not
looked at. -/
def load? (path : List Char) : IO (Option FileTree) := do
  match ← (IO.FS.readBinFile (String.ofList path)).toBaseIO with
  | .ok bytes => return some (.file bytes.toList)
  | .error (.noFileOrDirectory ..) => return none
  | .error _ => return some (.directory [])

/-- The tree of what stands at some paths on disk. -/
def loadAll (paths : List (List Char)) : IO FileTree :=
  paths.foldlM
    (fun tree path => do
      if (tree.at? path).isSome then return tree
      match ← load? path with
      | some place => return place.put (FileTree.names path) tree
      | none => return tree)
    (.directory [])

/-- The paths that a command line is about, with the text of standard input. -/
def placesOf (a : Arguments) (cwd input : List Char) : List (List Char) :=
  let listed :=
    if a.diffOnly then (changedLines cwd input).files.map (·.1)
    else ((Text.lines input).filter (!·.isEmpty)).map (Path.normalize cwd)
  a.files.map (fun f => Path.normalize cwd f.toList) ++ listed

/-- A run of the program with arguments that were understood. -/
def runOnDisk (a : Arguments) : IO UInt32 := do
  let stdout ← IO.getStdout
  let cwd := (toString (← IO.currentDir)).toList
  let bytes ←
    if a.diffOnly || a.files.isEmpty then readRest (← IO.getStdin) .empty else pure .empty
  let input := Text.decodeLossy bytes.toList
  let tree ← loadAll (configPlaces cwd ++ placesOf a cwd input)
  let result := run tree (fun _ => .ok input) (← stdout.isTty) cwd a
  stdout.putStr (String.ofList result.stdout)
  IO.eprint (String.ofList result.stderr)
  return result.exitCode.toUInt32

end Untranslated

/-- Reports the texts of scripts that users see and that are not translated. -/
def main (line : List String) : IO UInt32 := do
  match Untranslated.CommandLine.parse line with
  | .ok a => Untranslated.runOnDisk a
  | .error .help =>
    IO.print Untranslated.usage
    return 0
  | .error .version =>
    IO.println "untranslated 0.1.0"
    return 0
  | .error stop =>
    IO.eprint ("error: " ++ stop.message ++ "\n\n" ++ Untranslated.usage)
    return 2
