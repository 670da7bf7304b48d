import Untranslated.Glob
import Untranslated.Json
import Untranslated.Options
import Untranslated.Text.Blank

/-!
# Configuration

What a user can set. A configuration is read from JSON, by the names of its fields or in their
order; what is left out has a default.

* `Config.ofJson?`: the configuration that a value is.
* `Config.fault?`: what is wrong with the values of a configuration.
-/

namespace Untranslated

open Text (trim)

/-- What a user can set. -/
structure Config where
  /-- The directory that is scanned. -/
  sourceRoot : String := "src"
  /-- Globs, files and directories that are left out. -/
  ignores : List String := []
  checkedAttributes : List String :=
    ["placeholder", "title", "alt", "label", "aria-label", "aria-placeholder",
     "aria-description", "aria-valuetext"]
  checkedCalls : List String := ["toast.error", "toast.success", "toast.warning", "toast.info"]
  translationFunctions : List String := ["t", "i18n.t"]
  /-- Texts that are not reported. -/
  ignoreTexts : List String := []
  deriving DecidableEq, Repr

namespace Config

/-- The names an inspection goes by. -/
def options (c : Config) : Options :=
  { checkedAttributes := c.checkedAttributes
    checkedCalls := c.checkedCalls
    translationFunctions := c.translationFunctions
    ignoreTexts := c.ignoreTexts.map fun s => String.ofList (trim s.toList) }

/-! ### Reading -/

/-- The text that a value is. -/
def text? : Json → Option String
  | .string s => some s
  | _ => none

/-- The texts that a value lists. -/
def texts? : Json → Option (List String)
  | .array items => items.mapM text?
  | _ => none

/-- The names of the fields in their order. -/
def fieldNames : List String :=
  ["sourceRoot", "ignores", "checkedAttributes", "checkedCalls", "translationFunctions",
   "ignoreTexts"]

/-- The configuration with the value of a field; fields of other names say nothing. -/
def set? (c : Config) (name : String) (value : Json) : Option Config :=
  match name with
  | "sourceRoot" => (text? value).map fun s => { c with sourceRoot := s }
  | "ignores" => (texts? value).map fun l => { c with ignores := l }
  | "checkedAttributes" => (texts? value).map fun l => { c with checkedAttributes := l }
  | "checkedCalls" => (texts? value).map fun l => { c with checkedCalls := l }
  | "translationFunctions" => (texts? value).map fun l => { c with translationFunctions := l }
  | "ignoreTexts" => (texts? value).map fun l => { c with ignoreTexts := l }
  | _ => some c

/-- The configuration with the values of fields. No known field may repeat. -/
def setAll? (c : Config) (seen : List String) : List (String × Json) → Option Config
  | [] => some c
  | (name, value) :: fields =>
    if fieldNames.contains name && seen.contains name then none
    else
      match set? c name value with
      | some c => setAll? c (name :: seen) fields
      | none => none

/-- The configuration that a value is. -/
def ofJson? : Json → Option Config
  | .object fields => setAll? {} [] fields
  | .array items =>
    if items.length ≤ fieldNames.length then setAll? {} [] (fieldNames.zip items) else none
  | _ => none

/-- The configuration that a text writes. -/
def read? (s : List Char) : Option Config :=
  (Json.read? s).bind ofJson?

/-! ### Faults -/

/-- Why a configuration cannot be used. -/
inductive Fault
  | glob (pattern : String) (fault : GlobFault)
  | blankSourceRoot
  deriving DecidableEq, Repr

/-- The fault of a text as a glob. -/
def globFault? (pattern : String) : Option Fault :=
  match Glob.ofText pattern.toList with
  | .ok _ => none
  | .error fault => some (.glob pattern fault)

/-- The first fault of a configuration. Every text that is ignored must be a glob. -/
def fault? (c : Config) : Option Fault :=
  (c.ignores.findSome? globFault?).or
    (if (trim c.sourceRoot.toList).isEmpty then some .blankSourceRoot else none)

/-- What is wrong, without the reason. -/
def Fault.summary : Fault → String
  | glob pattern _ => "Invalid glob pattern in 'ignores': \"" ++ pattern ++ "\""
  | blankSourceRoot => "'sourceRoot' must not be empty"

/-- What is wrong, with the reason. -/
def Fault.message : Fault → String
  | glob pattern fault => (glob pattern fault).summary ++ ": " ++ fault.message
  | blankSourceRoot => blankSourceRoot.summary

end Config

end Untranslated
