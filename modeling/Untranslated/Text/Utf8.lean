/-!
# UTF-8

Bytes as text. What is not UTF-8 is refused, or stands as one replacement character for each
longest piece that could have begun a character.

* `decode?`: bytes as a text, if they are one.
* `decodeLossy`: bytes as a text with replacement characters.
-/

namespace Untranslated.Text

/-- The payload of a continuation byte in a range. -/
def continuation? (lo hi : Nat) (b : UInt8) : Option Nat :=
  if lo ≤ b.toNat && b.toNat ≤ hi then some (b.toNat - 0x80) else none

/-- The number of bytes after the first one of a character, the range of the second byte, and
the payload of the first. -/
def leadByte? (b : UInt8) : Option (Nat × Nat × Nat × Nat) :=
  let n := b.toNat
  if n < 0x80 then some (0, 0, 0, n)
  else if 0xc2 ≤ n && n ≤ 0xdf then some (1, 0x80, 0xbf, n - 0xc0)
  else if n = 0xe0 then some (2, 0xa0, 0xbf, 0)
  else if n = 0xed then some (2, 0x80, 0x9f, 0xd)
  else if 0xe1 ≤ n && n ≤ 0xef then some (2, 0x80, 0xbf, n - 0xe0)
  else if n = 0xf0 then some (3, 0x90, 0xbf, 0)
  else if 0xf1 ≤ n && n ≤ 0xf3 then some (3, 0x80, 0xbf, n - 0xf0)
  else if n = 0xf4 then some (3, 0x80, 0x8f, 4)
  else none

/-- The code point after `more` further bytes, if they are continuations, and how many were. -/
def continue? : Nat → Nat → Nat → Nat → List UInt8 → Option Nat × Nat
  | 0, _, _, value, _ => (some value, 0)
  | _ + 1, _, _, _, [] => (none, 0)
  | more + 1, lo, hi, value, b :: rest =>
    match continuation? lo hi b with
    | none => (none, 0)
    | some n =>
      let (result, used) := continue? more 0x80 0xbf (64 * value + n) rest
      (result, used + 1)

/-- The character at the head of bytes, if there is one, and the number of bytes that it or a
beginning of one takes. -/
def charAt? : List UInt8 → Option Char × Nat
  | [] => (none, 0)
  | b :: rest =>
    match leadByte? b with
    | none => (none, 1)
    | some (more, lo, hi, value) =>
      let (result, used) := continue? more lo hi value rest
      (result.map Char.ofNat, used + 1)

/-- The characters of bytes, `none` for each piece that is no character, in at most `fuel`
rounds. -/
def decodeIn : Nat → List UInt8 → List (Option Char)
  | 0, _ => []
  | _ + 1, [] => []
  | fuel + 1, bs =>
    let (c, used) := charAt? bs
    c :: decodeIn fuel (bs.drop used)

/-- The text that bytes are. -/
def decode? (bs : List UInt8) : Option (List Char) :=
  (decodeIn bs.length bs).mapM id

/-- Bytes as a text, with a replacement character for what is none. -/
def decodeLossy (bs : List UInt8) : List Char :=
  (decodeIn bs.length bs).map (·.getD '\ufffd')

end Untranslated.Text
