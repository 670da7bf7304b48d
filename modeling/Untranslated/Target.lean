import Untranslated.Glob
import Untranslated.Path

/-!
# Targets

Which files are looked at: scripts that are no tests or mocks and that the user does not ignore.
-/

namespace Untranslated

/-- The extensions of scripts. -/
def scriptExtensions : List String :=
  ["tsx", "ts", "jsx", "js"]

/-- The path is that of a script. -/
def isScriptPath (p : List Char) : Bool :=
  (Path.extension? p).any fun e => scriptExtensions.contains (String.ofList e)

/-- Files that hold no text for users: tests, specifications and mocks. -/
def excludedFiles : List String :=
  ["**/*.test.*", "**/*.spec.*", "**/*.mock.*", "**/*_test.*", "**/__tests__/**",
   "**/__mocks__/**"]

/-- The text has wildcards. Without them it names a file or a directory. -/
def isWild (s : List Char) : Bool :=
  s.contains '*' || s.contains '?'

/-- What a text stands for as a glob, if it is one. -/
def globs (texts : List (List Char)) : List Glob :=
  texts.filterMap fun s => (Glob.ofText s).toOption

/-- Which files are looked at. -/
structure TargetFilter where
  base : List Char
  /-- Files and directories that are left out. -/
  places : List (List Char)
  globs : List Glob
  deriving Repr

namespace TargetFilter

/-- The filter that leaves out what the user ignores, as seen from `base`. -/
def ofIgnores (base : List Char) (ignores : List (List Char)) : TargetFilter :=
  { base
    places := (ignores.filter (!isWild ·)).map (Path.normalize base)
    globs := Untranslated.globs (excludedFiles.map String.toList ++ ignores.filter isWild) }

/-- The file is looked at. -/
def accepts (f : TargetFilter) (p : List Char) : Bool :=
  isScriptPath p && !f.places.any (Path.startsWith p) &&
    !f.globs.any fun g =>
      g.covers (p.map fun c => if c == '\\' then '/' else c) || g.covers (Path.display f.base p)

end TargetFilter

end Untranslated
