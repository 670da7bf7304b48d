/-!
# Byte offsets

Places in a text are counted in bytes of its UTF-8 form. A cut inside a character is refused.

* `cut?_append`: cutting at the length of a prefix gives that prefix back.
* `append_eq_of_cut?`: a cut loses nothing.
-/

namespace Untranslated.Text

/-- The number of bytes of a text. -/
def bytes (s : List Char) : Nat :=
  s.foldr (fun c n => c.utf8Size + n) 0

@[simp] theorem bytes_nil : bytes [] = 0 := rfl

@[simp] theorem bytes_cons (c : Char) (s : List Char) : bytes (c :: s) = c.utf8Size + bytes s := by
  simp [bytes]

@[simp] theorem bytes_append (s t : List Char) : bytes (s ++ t) = bytes s + bytes t := by
  induction s with
  | nil => simp
  | cons c s ih => simp [ih, Nat.add_assoc]

/-- The text cut at a byte offset: `none` past its end and inside a character. The part before
the cut comes in reverse, ahead of `behind`. -/
def cutBack? (behind : List Char) : Nat → List Char → Option (List Char × List Char)
  | 0, s => some (behind, s)
  | _ + 1, [] => none
  | n + 1, c :: s =>
    if c.utf8Size ≤ n + 1 then cutBack? (c :: behind) (n + 1 - c.utf8Size) s else none

/-- The text cut at a byte offset: `none` past its end and inside a character. -/
def cut? (n : Nat) (s : List Char) : Option (List Char × List Char) :=
  (cutBack? [] n s).map fun (behind, after) => (behind.reverse, after)

theorem cutBack?_append (behind s t : List Char) :
    cutBack? behind (bytes s) (s ++ t) = some (s.reverse ++ behind, t) := by
  induction s generalizing behind with
  | nil => simp [cutBack?]
  | cons c s ih =>
    have hc := Char.utf8Size_pos c
    obtain ⟨n, hn⟩ : ∃ n, bytes (c :: s) = n + 1 := ⟨bytes (c :: s) - 1, by rw [bytes_cons]; omega⟩
    rw [hn, List.cons_append, cutBack?]
    rw [bytes_cons] at hn
    have h : n + 1 - c.utf8Size = bytes s := by omega
    rw [if_pos (by omega), h, ih]
    simp

theorem cut?_append (s t : List Char) : cut? (bytes s) (s ++ t) = some (s, t) := by
  simp [cut?, cutBack?_append]

/-- A cut takes a prefix of the given length and adds it to what is behind. -/
theorem exists_of_cutBack? {behind s before after : List Char} {n : Nat}
    (h : cutBack? behind n s = some (before, after)) :
    ∃ passed, before = passed.reverse ++ behind ∧ passed ++ after = s ∧ bytes passed = n := by
  induction s generalizing behind n with
  | nil =>
    cases n with
    | zero =>
      obtain ⟨rfl, rfl⟩ : behind = before ∧ [] = after := by simpa [cutBack?] using h
      exact ⟨[], by simp⟩
    | succ n => simp [cutBack?] at h
  | cons c s ih =>
    cases n with
    | zero =>
      obtain ⟨rfl, rfl⟩ : behind = before ∧ c :: s = after := by simpa [cutBack?] using h
      exact ⟨[], by simp⟩
    | succ n =>
      rw [cutBack?] at h
      split at h
      case isTrue hc =>
        obtain ⟨passed, hbefore, htext, hsize⟩ := ih h
        refine ⟨c :: passed, by simp [hbefore], by simp [htext], ?_⟩
        rw [bytes_cons, hsize]
        omega
      case isFalse => exact absurd h (by simp)

theorem append_eq_of_cut? {n : Nat} {s before after : List Char}
    (h : cut? n s = some (before, after)) : before ++ after = s ∧ bytes before = n := by
  obtain ⟨⟨behind, rest⟩, hcut, heq⟩ := Option.map_eq_some_iff.1 h
  obtain ⟨passed, rfl, htext, hsize⟩ := exists_of_cutBack? hcut
  obtain ⟨rfl, rfl⟩ : passed = before ∧ rest = after := by simpa using heq
  exact ⟨htext, hsize⟩

end Untranslated.Text
