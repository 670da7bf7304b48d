import Untranslated.Path
import Untranslated.Text.Utf8

/-!
# Trees of files

Directories with what they hold. Paths lead to a place by the names in them, from the root on.

* `FileTree.files`: all files below a place, by name.
* `FileTree.read`: the text of a file, or why there is none.
-/

namespace Untranslated

/-- A file with its bytes, or a directory with its entries. -/
inductive FileTree
  | file (bytes : List UInt8)
  | directory (entries : List (List Char × FileTree))

/-- Why the text of a file cannot be had. -/
inductive ReadFault
  | missing
  /-- The path goes through a file. -/
  | notDirectory
  | isDirectory
  /-- The bytes are no UTF-8. -/
  | notText
  deriving DecidableEq, Repr

/-- What a fault is reported as. -/
def ReadFault.message : ReadFault → String
  | missing => "No such file or directory (os error 2)"
  | notDirectory => "Not a directory (os error 20)"
  | isDirectory => "Is a directory (os error 21)"
  | notText => "stream did not contain valid UTF-8"

namespace FileTree

/-- The names in a path. -/
def names (p : List Char) : List (List Char) :=
  (Path.components p).filterMap fun
    | .name s => some s
    | _ => none

/-- The entry with a name. -/
def child? (name : List Char) (entries : List (List Char × FileTree)) : Option FileTree :=
  (entries.find? (·.1 == name)).map (·.2)

/-- What names lead to. -/
def find : List (List Char) → FileTree → Except ReadFault FileTree
  | [], t => .ok t
  | _ :: _, file _ => .error .notDirectory
  | name :: rest, directory entries =>
    match child? name entries with
    | some t => find rest t
    | none => .error .missing

/-- What stands at a path. -/
def at? (t : FileTree) (p : List Char) : Option FileTree :=
  (find (names p) t).toOption

/-- A file stands at the path. -/
def isFile (t : FileTree) (p : List Char) : Bool :=
  match t.at? p with
  | some (file _) => true
  | _ => false

/-- A directory stands at the path. -/
def isDirectory (t : FileTree) (p : List Char) : Bool :=
  match t.at? p with
  | some (directory _) => true
  | _ => false

/-- The text of the file at a path. -/
def read (t : FileTree) (p : List Char) : Except ReadFault (List Char) := do
  match ← find (names p) t with
  | file bytes =>
    match Text.decode? bytes with
    | some s => .ok s
    | none => .error .notText
  | directory _ => .error .isDirectory

/-! ### Files below a place -/

/-- The path of an entry of a directory. -/
def entryPath (p name : List Char) : List Char :=
  if p.getLast? == some '/' then p ++ name else p ++ '/' :: name

/-- Names come in the order of their characters. -/
def nameBefore (a b : List Char) : Bool :=
  (compare (a.map Char.toNat) (b.map Char.toNat)).isLE

mutual

/-- The paths of all files of the tree at a path, the entries of each directory by name. -/
def files (p : List Char) : FileTree → List (List Char)
  | file _ => [p]
  | directory entries =>
    ((filesOf p entries).mergeSort fun a b => nameBefore a.1 b.1).flatMap (·.2)

/-- The names of entries with the paths of their files. -/
def filesOf (p : List Char) : List (List Char × FileTree) → List (List Char × List (List Char))
  | [] => []
  | e :: rest => filesOfEntry p e :: filesOf p rest

/-- The name of an entry with the paths of its files. -/
def filesOfEntry (p : List Char) : List Char × FileTree → List Char × List (List Char)
  | (name, t) => (name, files (entryPath p name) t)

end

/-- The paths of all files below the directory at a path. -/
def filesBelow (t : FileTree) (p : List Char) : List (List Char) :=
  match t.at? p with
  | some (directory entries) => files p (directory entries)
  | _ => []

/-! ### Changes -/

/-- The entries with one of them set. -/
def setEntry (name : List Char) (t : FileTree) (entries : List (List Char × FileTree)) :
    List (List Char × FileTree) :=
  entries.filter (·.1 != name) ++ [(name, t)]

/-- The tree with something put where names lead; directories are made on the way. -/
def put (t : FileTree) : List (List Char) → FileTree → FileTree
  | [], _ => t
  | name :: rest, file _ => directory [(name, put t rest (directory []))]
  | name :: rest, directory entries =>
    directory (setEntry name (put t rest ((child? name entries).getD (directory []))) entries)

/-- The tree without what names lead to. -/
def remove : List (List Char) → FileTree → FileTree
  | [], t => t
  | _, file bytes => file bytes
  | [name], directory entries => directory (entries.filter (·.1 != name))
  | name :: rest, directory entries =>
    match child? name entries with
    | some t => directory (setEntry name (remove rest t) entries)
    | none => directory entries

end FileTree

end Untranslated
