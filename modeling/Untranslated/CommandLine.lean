/-!
# Command lines

What a user asks for: files, options with values, and flags, in any order. Two dashes end the
options.

* `CommandLine.parse`: the arguments of a call, or why they cannot be understood.
-/

namespace Untranslated

/-- What a user asks for. -/
structure Arguments where
  files : List String := []
  diff : Bool := false
  staged : Bool := false
  base : Option String := none
  head : Option String := none
  verbose : Bool := false
  deriving DecidableEq, Repr

namespace CommandLine

/-- Why a command line is not carried out; help and the version are asked for, not faults. -/
inductive Stop
  | help
  | version
  | unknownArgument
  | missingValue
  | unneededValue
  | repeatedArgument
  deriving DecidableEq, Repr

/-- An option that takes a value. -/
inductive ValueOption
  | base
  | head
  deriving DecidableEq, Repr

/-- An option without a value. -/
inductive Flag
  | diff
  | staged
  | verbose
  | help
  | version
  deriving DecidableEq, Repr

/-- The option without a value that a long name stands for. -/
def longFlag? : String → Option Flag
  | "diff" | "diff-only" => some .diff
  | "staged" => some .staged
  | "verbose" => some .verbose
  | "help" => some .help
  | "version" => some .version
  | _ => none

/-- The option with a value that a long name stands for. -/
def longOption? : String → Option ValueOption
  | "base" => some .base
  | "head" => some .head
  | _ => none

/-- The option that a letter stands for. -/
def shortFlag? : Char → Option Flag
  | 'v' => some .verbose
  | 'h' => some .help
  | 'V' => some .version
  | _ => none

/-- A place in a command line: what was read, and an option that waits for its value or has
not taken effect yet. -/
structure State where
  arguments : Arguments := {}
  pending : Option (ValueOption × Option String) := none
  /-- The next word is the value of the pending option. -/
  awaitsValue : Bool := false

/-- An option takes effect with its value. No option may be given twice. -/
def assign (a : Arguments) (option : ValueOption) (value : String) : Except Stop Arguments :=
  match option with
  | .base => if a.base.isSome then .error .repeatedArgument else .ok { a with base := some value }
  | .head => if a.head.isSome then .error .repeatedArgument else .ok { a with head := some value }

/-- The pending option takes effect; it must have its value. -/
def settle (s : State) : Except Stop State :=
  match s.pending with
  | none => .ok { s with awaitsValue := false }
  | some (_, none) => .error .missingValue
  | some (option, some value) => do
    return { arguments := ← assign s.arguments option value }

/-- A flag takes effect. No flag may be given twice. -/
def raise (s : State) (flag : Flag) : Except Stop State := do
  let s ← settle s
  let a := s.arguments
  match flag with
  | .help => .error .help
  | .version => .error .version
  | .diff =>
    if a.diff then .error .repeatedArgument
    else .ok { s with arguments := { a with diff := true } }
  | .staged =>
    if a.staged then .error .repeatedArgument
    else .ok { s with arguments := { a with staged := true } }
  | .verbose =>
    if a.verbose then .error .repeatedArgument
    else .ok { s with arguments := { a with verbose := true } }

/-- A word that begins with two dashes, without them: a name and perhaps a value after `=`. -/
def long (s : State) (word : List Char) : Except Stop State :=
  let name := String.ofList (word.takeWhile (· != '='))
  let value? := if word.contains '=' then some (String.ofList (word.dropWhile (· != '=')).tail)
    else none
  match longOption? name, longFlag? name, value? with
  | some option, _, some value => do
    let s ← settle s
    return { s with arguments := ← assign s.arguments option value }
  | some option, _, none => do
    let s ← settle s
    return { s with pending := some (option, none), awaitsValue := true }
  | none, some _, some _ => .error .unneededValue
  | none, some flag, none => raise s flag
  | none, none, _ => .error .unknownArgument

/-- Letters after a dash, each a flag of its own. -/
def short (s : State) : List Char → Except Stop State
  | [] => .ok s
  | c :: rest =>
    match shortFlag? c with
    | none => .error .unknownArgument
    | some flag => do short (← raise s flag) rest

/-- A file. -/
def file (s : State) (name : String) : Except Stop State := do
  let s ← settle s
  return { s with arguments := { s.arguments with files := s.arguments.files ++ [name] } }

/-- A word that is no option: the value that is waited for, or a file. -/
def plain (s : State) (word : String) : Except Stop State :=
  match s.pending, s.awaitsValue with
  | some (option, _), true =>
    .ok { s with pending := some (option, some word), awaitsValue := false }
  | _, _ => file s word

/-- Words one after another. -/
def words (s : State) : List String → Except Stop State
  | [] => settle s
  | word :: rest =>
    match word.toList with
    | ['-', '-'] => do settle (← rest.foldlM file s)
    | '-' :: '-' :: name => do words (← long s name) rest
    | '-' :: c :: letters => do words (← short s (c :: letters)) rest
    | _ => do words (← plain s word) rest

/-- The arguments that a command line gives. -/
def parse (line : List String) : Except Stop Arguments :=
  (words {} line).map (·.arguments)

end CommandLine

end Untranslated
