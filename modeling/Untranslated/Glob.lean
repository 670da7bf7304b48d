/-!
# Globs

Patterns for paths. A star stands for any text, slashes included; two stars that fill a part of
the path stand for whole parts; brackets stand for one character of a set.

* `Glob.ofText`: a glob as it is written, or what is wrong with it.
* `Glob.covers`: whether a glob stands for a text.
-/

namespace Untranslated

/-- Why a text is no glob. -/
inductive GlobCause
  | wildcards
  | recursiveWildcards
  | range
  deriving DecidableEq, Repr

/-- A fault of a glob and the number of characters before its place. -/
structure GlobFault where
  place : Nat
  cause : GlobCause
  deriving DecidableEq, Repr

/-- What a fault is reported as. -/
def GlobFault.message (f : GlobFault) : String :=
  let cause := match f.cause with
    | .wildcards => "wildcards are either regular \x60*\x60 or recursive \x60**\x60"
    | .recursiveWildcards => "recursive wildcards must form a single path component"
    | .range => "invalid range pattern"
  "Pattern syntax error near position " ++ toString f.place ++ ": " ++ cause

/-- A piece of a glob. -/
inductive GlobPiece
  | char (c : Char)
  | anyChar
  | anyText
  /-- Whole parts of a path. -/
  | anyParts
  /-- One character of some ranges. -/
  | within (ranges : List (Char × Char))
  | except (ranges : List (Char × Char))
  deriving DecidableEq, Repr

/-- A pattern for paths. -/
structure Glob where
  pieces : List GlobPiece
  deriving DecidableEq, Repr

namespace Glob

/-- The ranges written between brackets. -/
def ranges : List Char → List (Char × Char)
  | a :: '-' :: b :: rest => (a, b) :: ranges rest
  | a :: rest => (a, a) :: ranges rest
  | [] => []

/-- The set at the head of a text that begins with a bracket, and its length. Its first
character may be the closing bracket. -/
def setAt? : List Char → Option (GlobPiece × Nat)
  | '[' :: '!' :: c :: rest =>
    let more := rest.takeWhile (· != ']')
    if more.length < rest.length then some (.except (ranges (c :: more)), more.length + 4)
    else none
  | '[' :: c :: rest =>
    let more := rest.takeWhile (· != ']')
    if c != '!' && more.length < rest.length then
      some (.within (ranges (c :: more)), more.length + 3)
    else none
  | _ => none

/-- The piece is not added after another one of whole parts. -/
def addParts (pieces : List GlobPiece) : List GlobPiece :=
  if pieces.length > 1 && pieces.getLast? == some .anyParts then pieces
  else pieces ++ [.anyParts]

/-- The pieces of the text `rest` after the pieces of the text `before`, which is kept in
reverse, in at most `fuel` rounds. -/
def piecesFrom : Nat → List Char → List GlobPiece → List Char → Except GlobFault (List GlobPiece)
  | 0, _, pieces, _ => .ok pieces
  | fuel + 1, before, pieces, s =>
    match s with
    | [] => .ok pieces
    | '?' :: rest => piecesFrom fuel ('?' :: before) (pieces ++ [.anyChar]) rest
    | '*' :: '*' :: '*' :: _ => .error ⟨before.length + 2, .wildcards⟩
    | '*' :: '*' :: rest =>
      if before.isEmpty || before.head? == some '/' then
        match rest with
        | [] => .ok (addParts pieces)
        | '/' :: rest => piecesFrom fuel ('/' :: '*' :: '*' :: before) (addParts pieces) rest
        | _ => .error ⟨before.length + 2, .recursiveWildcards⟩
      else .error ⟨before.length - 1, .recursiveWildcards⟩
    | '*' :: rest => piecesFrom fuel ('*' :: before) (pieces ++ [.anyText]) rest
    | '[' :: rest =>
      match setAt? ('[' :: rest) with
      | some (piece, n) =>
        piecesFrom fuel ((s.take n).reverse ++ before) (pieces ++ [piece]) (s.drop n)
      | none => .error ⟨before.length, .range⟩
    | c :: rest => piecesFrom fuel (c :: before) (pieces ++ [.char c]) rest

/-- The glob that a text is. -/
def ofText (s : List Char) : Except GlobFault Glob :=
  (piecesFrom (s.length + 1) [] [] s).map Glob.mk

/-! ### What a glob stands for -/

/-- Some tail of the text, or all of it, answers to `p`. -/
def someTail (p : List Char → Bool) : List Char → Bool
  | [] => p []
  | c :: s => p (c :: s) || someTail p s

/-- Some tail of the text that follows a slash, or nothing, answers to `p`. -/
def someTailAfterSlash (p : List Char → Bool) : List Char → Bool
  | [] => p []
  | c :: s => (c == '/' && p s) || someTailAfterSlash p s

/-- One character belongs to a set. -/
def GlobPiece.takes : GlobPiece → Char → Bool
  | .char d, c => c == d
  | .within ranges, c => ranges.any fun r => r.1 ≤ c && c ≤ r.2
  | .except ranges, c => !ranges.any fun r => r.1 ≤ c && c ≤ r.2
  | _, _ => true

/-- The pieces stand for the text. -/
def coversFrom : List GlobPiece → List Char → Bool
  | [] => List.isEmpty
  | .anyText :: pieces => someTail (coversFrom pieces)
  | .anyParts :: pieces => fun s => coversFrom pieces s || someTailAfterSlash (coversFrom pieces) s
  | piece :: pieces => fun
    | [] => false
    | c :: s => GlobPiece.takes piece c && coversFrom pieces s

/-- The glob stands for the text. -/
def covers (g : Glob) (s : List Char) : Bool :=
  coversFrom g.pieces s

end Glob

end Untranslated
