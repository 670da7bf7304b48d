import Untranslated.Text.Bytes

/-!
# Erasing regions of a text

A region is a range of byte offsets with what becomes of the characters inside. Where regions
overlap, the one that starts first decides.

* `erase_nil`: without regions the text stays as it is.
-/

namespace Untranslated.Text

/-- What becomes of a region. -/
inductive Erasure
  /-- Its characters are dropped. -/
  | drop
  /-- Each character becomes a space; newlines stay. -/
  | blank
  deriving DecidableEq, Repr

/-- A range of byte offsets to erase. -/
structure Region where
  lo : Nat
  hi : Nat
  erasure : Erasure
  deriving DecidableEq, Repr

/-- What an erasure leaves of the text inside its region. -/
def Erasure.apply : Erasure → List Char → List Char
  | drop, _ => []
  | blank, s => s.map fun c => if c == '\n' then c else ' '

/-- The regions are erased from the part of a text after the offset `done`, where the text ends
at the offset `size`; `none` if one of them cuts a character. -/
def eraseFrom (size done : Nat) (s : List Char) : List Region → Option (List Char)
  | [] => some s
  | r :: regions => do
    let lo := min (max r.lo done) size
    let hi := min r.hi size
    if hi ≤ lo then eraseFrom size done s regions
    else
      let (kept, rest) ← cut? (lo - done) s
      let (inside, rest) ← cut? (hi - lo) rest
      let after ← eraseFrom size hi rest regions
      return kept ++ r.erasure.apply inside ++ after

/-- The text with all regions erased; `none` if one of them cuts a character. -/
def erase (s : List Char) (regions : List Region) : Option (List Char) :=
  eraseFrom (bytes s) 0 s (regions.mergeSort fun a b => a.lo ≤ b.lo)

@[simp] theorem erase_nil (s : List Char) : erase s [] = some s := by
  simp [erase, eraseFrom]

end Untranslated.Text
