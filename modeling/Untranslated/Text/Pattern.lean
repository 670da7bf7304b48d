import Untranslated.Text.Blank
import Untranslated.Text.Word

/-!
# Patterns

Regular expressions over characters. A text is matched one character at a time against the set
of patterns that the rest of it may still follow, so matching never goes back.

* `Pattern.Matches`: what it means for a text to follow a pattern.
* `Pattern.accepts_iff`: matching finds exactly that.
-/

namespace Untranslated.Text

/-- A set of characters. -/
inductive CharClass
  | any
  | among (chars : List Char)
  | between (lo hi : Char)
  | blank
  | word
  | digit
  | union (a b : CharClass)
  | except (a : CharClass)
  deriving DecidableEq, Repr

/-- The character belongs to the class. -/
def CharClass.contains : CharClass → Char → Bool
  | any, _ => true
  | among chars, c => chars.contains c
  | between lo hi, c => lo ≤ c && c ≤ hi
  | blank, c => isBlank c
  | word, c => isWordChar c
  | digit, c => isDecimalDigit c
  | union a b, c => a.contains c || b.contains c
  | except a, c => !a.contains c

/-- A regular expression. -/
inductive Pattern
  | never
  | empty
  | one (k : CharClass)
  | seq (p q : Pattern)
  | alt (p q : Pattern)
  | star (p : Pattern)
  deriving DecidableEq, Repr

namespace Pattern

/-- The text follows the pattern. -/
def Matches : Pattern → List Char → Prop
  | never, _ => False
  | empty, s => s = []
  | one k, s => ∃ c, s = [c] ∧ k.contains c
  | seq p q, s => ∃ u v, s = u ++ v ∧ Matches p u ∧ Matches q v
  | alt p q, s => Matches p s ∨ Matches q s
  | star p, s => ∃ us : List (List Char), s = us.flatten ∧ ∀ u ∈ us, Matches p u

/-- The pattern lets a text be empty. -/
def nullable : Pattern → Bool
  | never => false
  | empty => true
  | one _ => false
  | seq p q => p.nullable && q.nullable
  | alt p q => p.nullable || q.nullable
  | star _ => true

/-- What may follow the character `c` in a text that follows the pattern. -/
def next (c : Char) : Pattern → List Pattern
  | never => []
  | empty => []
  | one k => if k.contains c then [empty] else []
  | seq p q => (next c p).map (seq · q) ++ if p.nullable then next c q else []
  | alt p q => next c p ++ next c q
  | star p => (next c p).map (seq · (star p))

/-- The text follows one of the patterns. -/
def acceptsAny : List Pattern → List Char → Bool
  | ps, [] => ps.any nullable
  | ps, c :: s => acceptsAny (ps.flatMap (next c)).eraseDups s

/-- The text follows the pattern. -/
def accepts (p : Pattern) (s : List Char) : Bool :=
  acceptsAny [p] s

theorem nullable_iff (p : Pattern) : p.nullable ↔ p.Matches [] := by
  induction p with
  | never => simp [nullable, Matches]
  | empty => simp [nullable, Matches]
  | one k => simp [nullable, Matches]
  | seq p q ihp ihq =>
    simp only [nullable, Bool.and_eq_true, ihp, ihq, Matches, List.nil_eq, List.append_eq_nil_iff]
    exact ⟨fun h => ⟨[], [], ⟨rfl, rfl⟩, h⟩, by rintro ⟨u, v, ⟨rfl, rfl⟩, h⟩; exact h⟩
  | alt p q ihp ihq => simp [nullable, Matches, ihp, ihq]
  | star p => simpa [nullable, Matches] using ⟨[], by simp, by simp⟩

theorem matches_star_cons {p : Pattern} {c : Char} {s : List Char} :
    (star p).Matches (c :: s) ↔
      ∃ u v, s = u ++ v ∧ p.Matches (c :: u) ∧ (star p).Matches v := by
  constructor
  · rintro ⟨us, hs, hus⟩
    induction us with
    | nil => simp at hs
    | cons u us ih =>
      cases u with
      | nil => exact ih (by simpa using hs) fun w hw => hus w (by simp [hw])
      | cons d u =>
        simp only [List.flatten_cons, List.cons_append, List.cons.injEq] at hs
        obtain ⟨rfl, rfl⟩ := hs
        exact ⟨u, us.flatten, rfl, hus _ (by simp), us, rfl, fun w hw => hus w (by simp [hw])⟩
  · rintro ⟨u, v, rfl, hu, us, rfl, hus⟩
    exact ⟨(c :: u) :: us, by simp, by simpa [hu] using hus⟩

theorem next_iff (c : Char) (p : Pattern) (s : List Char) :
    (∃ q ∈ next c p, q.Matches s) ↔ p.Matches (c :: s) := by
  induction p generalizing s with
  | never => simp [next, Matches]
  | empty => simp [next, Matches]
  | one k =>
    by_cases h : k.contains c
    · simp only [next, h, if_true, List.mem_singleton, exists_eq_left, Matches, List.cons.injEq]
      exact ⟨fun hs => ⟨c, ⟨rfl, hs⟩, h⟩, fun ⟨_, ⟨_, hs⟩, _⟩ => hs⟩
    · simp only [next, h, Matches, List.cons.injEq]
      constructor
      · simp
      · rintro ⟨d, ⟨rfl, _⟩, hd⟩
        exact absurd hd h
  | alt p q ihp ihq => simp [next, Matches, ← ihp, ← ihq, or_and_right, exists_or]
  | seq p q ihp ihq =>
    have hleft : (∃ r ∈ (next c p).map (seq · q), r.Matches s) ↔
        ∃ u v, s = u ++ v ∧ p.Matches (c :: u) ∧ q.Matches v := by
      simp only [List.mem_map, ← ihp]
      constructor
      · rintro ⟨_, ⟨r, hr, rfl⟩, u, v, rfl, hu, hv⟩
        exact ⟨u, v, rfl, ⟨r, hr, hu⟩, hv⟩
      · rintro ⟨u, v, rfl, ⟨r, hr, hu⟩, hv⟩
        exact ⟨_, ⟨r, hr, rfl⟩, u, v, rfl, hu, hv⟩
    have hright : (∃ r ∈ (if p.nullable then next c q else []), r.Matches s) ↔
        p.Matches [] ∧ q.Matches (c :: s) := by
      rw [← ihq, ← nullable_iff]
      by_cases h : p.nullable <;> simp [h]
    simp only [next, List.mem_append, or_and_right, exists_or, hleft, hright]
    rw [Matches]
    constructor
    · rintro (⟨u, v, rfl, hu, hv⟩ | ⟨hp, hq⟩)
      · exact ⟨c :: u, v, rfl, hu, hv⟩
      · exact ⟨[], c :: s, rfl, hp, hq⟩
    · rintro ⟨u, v, huv, hu, hv⟩
      cases u with
      | nil =>
        rw [List.nil_append] at huv
        exact .inr ⟨hu, huv ▸ hv⟩
      | cons d u =>
        simp only [List.cons_append, List.cons.injEq] at huv
        obtain ⟨rfl, rfl⟩ := huv
        exact .inl ⟨u, v, rfl, hu, hv⟩
  | star p ih =>
    rw [matches_star_cons]
    simp only [next, List.mem_map, ← ih]
    constructor
    · rintro ⟨_, ⟨r, hr, rfl⟩, u, v, rfl, hu, hv⟩
      exact ⟨u, v, rfl, ⟨r, hr, hu⟩, hv⟩
    · rintro ⟨u, v, rfl, ⟨r, hr, hu⟩, hv⟩
      exact ⟨_, ⟨r, hr, rfl⟩, u, v, rfl, hu, hv⟩

theorem acceptsAny_iff (ps : List Pattern) (s : List Char) :
    acceptsAny ps s ↔ ∃ p ∈ ps, p.Matches s := by
  induction s generalizing ps with
  | nil => simp [acceptsAny, nullable_iff]
  | cons c s ih =>
    rw [acceptsAny, ih]
    simp only [List.mem_eraseDups, List.mem_flatMap, ← next_iff]
    constructor
    · rintro ⟨q, ⟨p, hp, hq⟩, hs⟩
      exact ⟨p, hp, q, hq, hs⟩
    · rintro ⟨p, hp, q, hq, hs⟩
      exact ⟨q, ⟨p, hp, hq⟩, hs⟩

theorem accepts_iff (p : Pattern) (s : List Char) : p.accepts s ↔ p.Matches s := by
  simp [accepts, acceptsAny_iff]

/-! ### Ways to write patterns -/

/-- Exactly this text. -/
def literal (s : String) : Pattern :=
  s.toList.foldr (fun c p => seq (one (.among [c])) p) empty

/-- One of the characters. -/
def oneOf (chars : String) : Pattern :=
  one (.among chars.toList)

/-- The pattern or nothing. -/
def optional (p : Pattern) : Pattern :=
  alt p empty

/-- The pattern once or more often. -/
def plus (p : Pattern) : Pattern :=
  seq p (star p)

/-- The patterns in a row. -/
def inRow (ps : List Pattern) : Pattern :=
  ps.foldr seq empty

/-- One of the patterns. -/
def anyOf (ps : List Pattern) : Pattern :=
  ps.foldr alt never

/-- The pattern `lo` times, and up to `extra` times more. -/
def repeated (lo extra : Nat) (p : Pattern) : Pattern :=
  inRow (List.replicate lo p ++ List.replicate extra (optional p))

/-- Any text. -/
def anything : Pattern :=
  star (one .any)

/-- A text that begins as the pattern says. -/
def atHead (p : Pattern) : Pattern :=
  seq p anything

/-- A text that ends as the pattern says. -/
def atTail (p : Pattern) : Pattern :=
  seq anything p

/-- A text in which the pattern can be found. -/
def within (p : Pattern) : Pattern :=
  seq anything (seq p anything)

end Pattern

end Untranslated.Text
