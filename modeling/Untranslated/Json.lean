/-!
# JSON

Values of the data format JSON, read strictly: no comments, no commas after the last item, and
no control characters in strings. Numbers are read and their value forgotten.

* `Json.read?`: a text as a value, if it is one.
-/

namespace Untranslated

/-- A value. The fields of an object keep their order and may repeat. -/
inductive Json
  | null
  | bool (b : Bool)
  | number
  | string (s : String)
  /-- A string with half a surrogate pair, which is no text. -/
  | brokenString
  | array (items : List Json)
  | object (fields : List (String × Json))
deriving Inhabited

namespace Json

/-- The text without the blanks at its head. -/
def skipBlank (s : List Char) : List Char :=
  s.dropWhile fun c => c == ' ' || c == '\n' || c == '\t' || c == '\r'

/-! ### Strings -/

/-- The number that four hexadecimal digits write, and the rest. -/
def fourDigits? (s : List Char) : Option (Nat × List Char) :=
  let digit? (c : Char) : Option Nat :=
    if c.isDigit then some (c.toNat - '0'.toNat)
    else if 'a' ≤ c && c ≤ 'f' then some (c.toNat - 'a'.toNat + 10)
    else if 'A' ≤ c && c ≤ 'F' then some (c.toNat - 'A'.toNat + 10)
    else none
  match s with
  | a :: b :: c :: d :: rest => do
    return (((← digit? a) * 16 + (← digit? b)) * 256 + (← digit? c) * 16 + (← digit? d), rest)
  | _ => none

/-- The character that follows a backslash stands for. -/
def escaped? : Char → Option Char
  | '"' => some '"'
  | '\\' => some '\\'
  | '/' => some '/'
  | 'b' => some '\x08'
  | 'f' => some '\x0c'
  | 'n' => some '\n'
  | 'r' => some '\r'
  | 't' => some '\t'
  | _ => none

/-- The second half of a surrogate pair at the head of a text, and the rest. -/
def lowHalf? : List Char → Option (Nat × List Char)
  | '\\' :: 'u' :: s => do
    let (n, rest) ← fourDigits? s
    if 0xdc00 ≤ n && n < 0xe000 then some (n - 0xdc00, rest) else none
  | _ => none

/-- The characters up to the closing quote, `none` for half a surrogate pair, and the rest
after the quote, in at most `fuel` rounds. -/
def stringIn : Nat → List Char → Option (List (Option Char) × List Char)
  | 0, _ => none
  | fuel + 1, s =>
    match s with
    | [] => none
    | '"' :: rest => some ([], rest)
    | '\\' :: 'u' :: rest => do
      let (n, rest) ← fourDigits? rest
      let (c, rest) :=
        if n < 0xd800 || 0xe000 ≤ n then (some (Char.ofNat n), rest)
        else
          match if n < 0xdc00 then lowHalf? rest else none with
          | some (low, rest) => (some (Char.ofNat (0x10000 + (n - 0xd800) * 0x400 + low)), rest)
          | none => (none, rest)
      let (cs, rest) ← stringIn fuel rest
      return (c :: cs, rest)
    | '\\' :: c :: rest => do
      let c ← escaped? c
      let (cs, rest) ← stringIn fuel rest
      return (some c :: cs, rest)
    | c :: rest => do
      if c == '\\' || c.toNat < 0x20 then none
      let (cs, rest) ← stringIn fuel rest
      return (some c :: cs, rest)

/-- The string after its opening quote, if it is a text, and the rest. -/
def string? (s : List Char) : Option (Option String × List Char) := do
  let (cs, rest) ← stringIn (s.length + 1) s
  return ((cs.mapM id).map String.ofList, rest)

/-! ### Numbers -/

/-- The rest after digits, of which there must be one. -/
def digits? (s : List Char) : Option (List Char) :=
  if s.head?.any Char.isDigit then some (s.dropWhile Char.isDigit) else none

/-- The rest after a number. -/
def number? (s : List Char) : Option (List Char) := do
  let s := if s.head? == some '-' then s.drop 1 else s
  let s ← if s.head? == some '0' then some (s.drop 1) else digits? s
  let s ← if s.head? == some '.' then digits? (s.drop 1) else some s
  if s.head? == some 'e' || s.head? == some 'E' then
    let s := s.drop 1
    digits? (if s.head? == some '+' || s.head? == some '-' then s.drop 1 else s)
  else return s

/-! ### Values -/

/-- The rest after a word. -/
def word? (word : String) (s : List Char) : Option (List Char) :=
  if word.toList.isPrefixOf s then some (s.drop word.toList.length) else none

mutual

/-- The value at the head of a text, and the rest. -/
def valueIn : Nat → List Char → Option (Json × List Char)
  | 0, _ => none
  | fuel + 1, s =>
    match skipBlank s with
    | '"' :: rest => (string? rest).map fun (text, rest) => (text.elim brokenString string, rest)
    | '[' :: rest =>
      match skipBlank rest with
      | ']' :: rest => some (array [], rest)
      | _ => (itemsIn fuel rest).map fun (items, rest) => (array items, rest)
    | '{' :: rest =>
      match skipBlank rest with
      | '}' :: rest => some (object [], rest)
      | _ => (fieldsIn fuel rest).map fun (fields, rest) => (object fields, rest)
    | 'n' :: rest => (word? "ull" rest).map (null, ·)
    | 't' :: rest => (word? "rue" rest).map (bool true, ·)
    | 'f' :: rest => (word? "alse" rest).map (bool false, ·)
    | rest => (number? rest).map (number, ·)

/-- The items of an array up to its closing bracket, and the rest. -/
def itemsIn : Nat → List Char → Option (List Json × List Char)
  | 0, _ => none
  | fuel + 1, s =>
    match valueIn fuel s with
    | none => none
    | some (item, rest) =>
      match skipBlank rest with
      | ',' :: rest => (itemsIn fuel rest).map fun (items, rest) => (item :: items, rest)
      | ']' :: rest => some ([item], rest)
      | _ => none

/-- The fields of an object up to its closing brace, and the rest. -/
def fieldsIn : Nat → List Char → Option (List (String × Json) × List Char)
  | 0, _ => none
  | fuel + 1, s =>
    match skipBlank s with
    | '"' :: rest =>
      match string? rest with
      | some (some name, rest) =>
        match skipBlank rest with
        | ':' :: rest =>
          match valueIn fuel rest with
          | none => none
          | some (value, rest) =>
            match skipBlank rest with
            | ',' :: rest =>
              (fieldsIn fuel rest).map fun (fields, rest) => ((name, value) :: fields, rest)
            | '}' :: rest => some ([(name, value)], rest)
            | _ => none
        | _ => none
      | _ => none
    | _ => none

end

/-- The value that a text writes. -/
def read? (s : List Char) : Option Json :=
  match valueIn (s.length + 1) s with
  | some (value, rest) => if (skipBlank rest).isEmpty then some value else none
  | none => none

end Json

end Untranslated
