/-!
# Paths

Paths as texts, with slashes between names. Their meaning is in their components: repeated
slashes and single dots say nothing.

* `normalize`: a path from the root on, without dots.
* `display`: a path as seen from a place above it.
-/

namespace Untranslated.Path

/-- A component of a path. -/
inductive Component
  | root
  /-- A single dot at the head of a path. -/
  | current
  /-- Two dots. -/
  | parent
  | name (s : List Char)
  deriving DecidableEq, Repr

/-- What the text between two slashes says, if it says anything. -/
def component? : List Char → Option Component
  | [] => none
  | ['.'] => none
  | ['.', '.'] => some .parent
  | s => some (.name s)

/-- The first component of a text that is not the head of a path, and the text after it. -/
def nextComponent (p : List Char) : Option Component × List Char :=
  let name := p.takeWhile (· != '/')
  (component? name, p.drop (name.length + 1))

/-- The components of a text that is not the head of a path, each with the text after it. -/
def componentsIn : Nat → List Char → List (Component × List Char)
  | 0, _ => []
  | _ + 1, [] => []
  | fuel + 1, p =>
    let (here, rest) := nextComponent p
    match here with
    | some c => (c, rest) :: componentsIn fuel rest
    | none => componentsIn fuel rest

/-- The components of a path, each with the text after it. -/
def split (p : List Char) : List (Component × List Char) :=
  match p with
  | '/' :: rest => (.root, rest) :: componentsIn p.length rest
  | ['.'] => [(.current, [])]
  | '.' :: '/' :: rest => (.current, '/' :: rest) :: componentsIn p.length rest
  | _ => componentsIn p.length p

/-- The components of a path. -/
def components (p : List Char) : List Component :=
  (split p).map (·.1)

/-- The path begins at the root. -/
def isAbsolute (p : List Char) : Bool :=
  p.head? == some '/'

/-- The path `p` as seen from `base`. -/
def join (base p : List Char) : List Char :=
  if isAbsolute p then p
  else if base.isEmpty || base.getLast? == some '/' then base ++ p
  else base ++ '/' :: p

/-! ### Normal forms -/

/-- Where a component leads from a place given by its components, innermost first. There is no
way up from the root. -/
def step (place : List Component) : Component → List Component
  | .current => place
  | .parent =>
    match place with
    | .name _ :: above => above
    | _ => place
  | c => c :: place

/-- The text of components. -/
def render : List Component → List Char
  | [] => []
  | .root :: rest => '/' :: render rest
  | [.name s] => s
  | .name s :: rest => s ++ '/' :: render rest
  | _ :: rest => render rest

/-- The path without dots and repeated slashes, as seen from `base`. -/
def normalize (base p : List Char) : List Char :=
  render ((components (join base p)).foldl step []).reverse

/-! ### Names -/

/-- The name at the end of a path. -/
def fileName? (p : List Char) : Option (List Char) :=
  match (components p).getLast? with
  | some (.name s) => some s
  | _ => none

/-- What stands after the last dot of a name; a dot at its head does not count. -/
def extension? (p : List Char) : Option (List Char) := do
  let name ← fileName? p
  let tail := (name.reverse.takeWhile (· != '.')).reverse
  if tail.length + 1 < name.length then some tail else none

/-! ### Paths below others -/

/-- The components that are left of a path below another one, with the text they came from;
`none` if the path is not below. -/
def below : List Char → List (Component × List Char) → List Component → Option (List Char)
  | text, _, [] => some text
  | _, (c, rest) :: cs, d :: ds => if c = d then below rest cs ds else none
  | _, [], _ :: _ => none

/-- The path is the place `base` or below it. -/
def startsWith (p base : List Char) : Bool :=
  (components base).isPrefixOf (components p)

/-- A text without what says nothing at its head. -/
def trimHead : Nat → List Char → List Char
  | 0, p => p
  | _ + 1, [] => []
  | fuel + 1, p =>
    match nextComponent p with
    | (none, rest) => trimHead fuel rest
    | _ => p

/-- A text without what says nothing at its end. -/
def trimTail : Nat → List Char → List Char
  | 0, p => p
  | fuel + 1, p =>
    let name := (p.reverse.takeWhile (· != '/')).reverse
    if p.isEmpty || (component? name).isSome then p
    else trimTail fuel (p.take (p.length - name.length - 1))

/-- The length of the root or the dot at the head of a path. -/
def headLength (p : List Char) : Nat :=
  match components p with
  | .root :: _ | .current :: _ => 1
  | _ => 0

/-- The text of a path below `base`, from there on. -/
def relative? (base p : List Char) : Option (List Char) := do
  let above := components base
  let rest ← below p (split p) above
  let rest := if above.isEmpty then rest else trimHead rest.length rest
  let kept := if above.isEmpty then headLength rest else 0
  return rest.take kept ++ trimTail rest.length (rest.drop kept)

/-- The path as seen from `base`, with slashes only. -/
def display (base p : List Char) : List Char :=
  ((relative? base p).getD p).map fun c => if c == '\\' then '/' else c

/-! ### Order -/

/-- The text by which a component is ordered; the root comes first. -/
def Component.key : Component → List Nat
  | .root => []
  | .current => [0]
  | .parent => [0, 0]
  | .name s => 1 :: s.map Char.toNat

/-- The order of paths: by components, and those by characters. -/
def order (p q : List Char) : Ordering :=
  compare ((components p).map Component.key) ((components q).map Component.key)

end Untranslated.Path
