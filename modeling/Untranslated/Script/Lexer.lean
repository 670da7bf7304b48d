import Untranslated.Script.Token
import Untranslated.Script.Tree
import Untranslated.Text.Identifier

/-!
# Cutting a script into lexemes

The length of the lexeme at the head of a text, in each of the ways the grammar may ask for it,
and the trivia before it.

* `cutTrivia_text`: cutting off trivia loses nothing.
* `cutTrivia_commentsEnd`: a line comment holds no newline.
* `cutTrivia_runsOut`: a line comment goes on to the end of its line.
* `cutTrivia_marks`, `beginsComment_cutTrivia`: where comments begin.
* `cutTrivia_bordered`, `ReadsCode`: text between tags is read between tags only.
-/

namespace Untranslated.Script

open Text (isIdentifierStart isIdentifierPart)

/-- The characters that end a line of a script. -/
def isLineEnd (c : Char) : Bool :=
  c == '\n' || c == '\r' || c == '\u2028' || c == '\u2029'

/-- The blanks of a script that end no line. -/
def isScriptBlank (c : Char) : Bool :=
  c == ' ' || c == '\t' || c == '\x0b' || c == '\x0c' || c == '\u00a0' || c == '\ufeff' ||
    c == '\u1680' || ('\u2000' ≤ c && c ≤ '\u200a') || c == '\u202f' || c == '\u205f' ||
    c == '\u3000'

/-! ### Trivia -/

/-- The length up to the end of the line. -/
def lineLength (s : List Char) : Nat :=
  (s.takeWhile (!isLineEnd ·)).length

/-- The length of the rest of a block comment with its end mark. -/
def blockLength? : List Char → Option Nat
  | '*' :: '/' :: _ => some 2
  | _ :: rest => (blockLength? rest).map (· + 1)
  | [] => none

/-- The trivia at the head of a text, as pieces of given lengths. A line may also be commented
out by `<!--`, the comment starting after the angle, and by `-->` at the start of a line. -/
def triviaAt (lineStart : Bool) : List Char → List (LeafKind × Nat)
  | '/' :: '/' :: rest => [(.trivia .lineComment, 2 + lineLength rest)]
  | '/' :: '*' :: rest =>
    match blockLength? rest with
    | some n => [(.trivia .blockComment, 2 + n)]
    | none => [(.trivia .blank, 2 + rest.length)]
  | '<' :: '!' :: '-' :: '-' :: rest =>
    [(.lexeme .plain, 1), (.trivia .lineComment, 3 + lineLength rest)]
  | '-' :: '-' :: '>' :: rest =>
    if lineStart then [(.lexeme .plain, 3), (.trivia .lineComment, lineLength rest)] else []
  | c :: rest =>
    if isScriptBlank c || isLineEnd c then
      [(.trivia .blank, 1 + (rest.takeWhile fun d => isScriptBlank d || isLineEnd d).length)]
    else []
  | [] => []

/-- The pieces cut off the head of a text, and the rest. -/
def cutPieces : List (LeafKind × Nat) → List Char → List Tree × List Char
  | [], s => ([], s)
  | (kind, n) :: pieces, s =>
    let (trees, rest) := cutPieces pieces (s.drop n)
    (.leaf kind (s.take n) :: trees, rest)

/-- The tree holds the end of a line. -/
def Tree.endsLine (t : Tree) : Bool :=
  t.text.any isLineEnd

/-- All trivia at the head of a text, and the rest, in at most one round for each character of
`fuel`. -/
def cutTriviaIn : List Char → Bool → List Char → List Tree × List Char
  | [], _, s => ([], s)
  | _ :: fuel, lineStart, s =>
    let (here, after) := cutPieces (triviaAt lineStart s) s
    if here.isEmpty then ([], s)
    else
      let (more, rest) := cutTriviaIn fuel (lineStart || here.any Tree.endsLine) after
      (here ++ more, rest)

/-- All trivia at the head of a text, and the rest. Each round takes at least one character, so
there are no more rounds than characters. -/
def cutTrivia (lineStart : Bool) (s : List Char) : List Tree × List Char :=
  cutTriviaIn s lineStart s

theorem cutPieces_text (pieces : List (LeafKind × Nat)) (s : List Char) :
    Tree.textAll (cutPieces pieces s).1 ++ (cutPieces pieces s).2 = s := by
  induction pieces generalizing s with
  | nil => simp [cutPieces]
  | cons p pieces ih => simp [cutPieces, ih (s.drop p.2)]

theorem cutTriviaIn_text (fuel : List Char) (lineStart : Bool) (s : List Char) :
    Tree.textAll (cutTriviaIn fuel lineStart s).1 ++ (cutTriviaIn fuel lineStart s).2 = s := by
  induction fuel generalizing lineStart s with
  | nil => simp [cutTriviaIn]
  | cons _ fuel ih =>
    have h := cutPieces_text (triviaAt lineStart s) s
    rw [cutTriviaIn]
    split
    next here after heq =>
      rw [heq] at h
      split
      · simp
      · simp [ih, h]

theorem cutTrivia_text (lineStart : Bool) (s : List Char) :
    Tree.textAll (cutTrivia lineStart s).1 ++ (cutTrivia lineStart s).2 = s :=
  cutTriviaIn_text _ _ _

/-- The piece is no line comment that goes on after a newline of `s`. -/
theorem newline_notMem_take_lineLength (s : List Char) : '\n' ∉ s.take (lineLength s) := by
  induction s with
  | nil => simp [lineLength]
  | cons c s ih =>
    by_cases hc : isLineEnd c
    · simp [lineLength, hc]
    · have hne : '\n' ≠ c := by rintro rfl; exact hc (by decide)
      simp only [lineLength] at ih
      simp [lineLength, hc, hne, ih]

theorem cutPieces_triviaAt (lineStart : Bool) (s : List Char) :
    Tree.CommentsEnd (Tree.leavesAll (cutPieces (triviaAt lineStart s) s).1) := by
  unfold triviaAt
  split
  · next rest =>
    have h := newline_notMem_take_lineLength rest
    simp [cutPieces, Nat.add_comm 2, h]
  · split <;> simp [cutPieces]
  · next rest =>
    have h := newline_notMem_take_lineLength rest
    simp [cutPieces, Nat.add_comm 3, h]
  · next rest =>
    have h := newline_notMem_take_lineLength rest
    split <;> simp [cutPieces, h]
  · split <;> simp [cutPieces]
  · simp [cutPieces]

theorem cutTriviaIn_commentsEnd (fuel : List Char) (lineStart : Bool) (s : List Char) :
    Tree.CommentsEnd (Tree.leavesAll (cutTriviaIn fuel lineStart s).1) := by
  induction fuel generalizing lineStart s with
  | nil => simp [cutTriviaIn]
  | cons _ fuel ih =>
    have h := cutPieces_triviaAt lineStart s
    rw [cutTriviaIn]
    split
    next here after heq =>
      rw [heq] at h
      split
      · simp
      · simp [ih, h]

theorem cutTrivia_commentsEnd (lineStart : Bool) (s : List Char) :
    Tree.CommentsEnd (Tree.leavesAll (cutTrivia lineStart s).1) :=
  cutTriviaIn_commentsEnd _ _ _

/-- Each line comment among the leaves goes on to the end of its line; `rest` comes after the
leaves. -/
def RunsOut : List (LeafKind × List Char) → List Char → Prop
  | [], _ => True
  | l :: ls, rest =>
    (l.1 = .trivia .lineComment → ∀ c ∈ (ls.flatMap (·.2) ++ rest).head?, isLineEnd c = true) ∧
      RunsOut ls rest

@[simp] theorem runsOut_nil (rest : List Char) : RunsOut [] rest := trivial

@[simp] theorem runsOut_cons (l : LeafKind × List Char) (ls : List (LeafKind × List Char))
    (rest : List Char) : RunsOut (l :: ls) rest ↔
      (l.1 = .trivia .lineComment → ∀ c ∈ (ls.flatMap (·.2) ++ rest).head?, isLineEnd c = true) ∧
        RunsOut ls rest := Iff.rfl

@[simp] theorem runsOut_append (ls ms : List (LeafKind × List Char)) (rest : List Char) :
    RunsOut (ls ++ ms) rest ↔ RunsOut ls (ms.flatMap (·.2) ++ rest) ∧ RunsOut ms rest := by
  induction ls with
  | nil => simp
  | cons l ls ih => simp [ih, and_assoc]

theorem isLineEnd_of_mem_head?_drop (s : List Char) :
    ∀ c ∈ (s.drop (lineLength s)).head?, isLineEnd c = true := by
  induction s with
  | nil => simp
  | cons c s ih =>
    by_cases hc : isLineEnd c
    · simp [lineLength, hc]
    · simpa [lineLength, hc] using ih

theorem cutPieces_runsOut (lineStart : Bool) (s : List Char) :
    RunsOut (Tree.leavesAll (cutPieces (triviaAt lineStart s) s).1)
      (cutPieces (triviaAt lineStart s) s).2 := by
  unfold triviaAt
  split
  · next rest =>
    have h := isLineEnd_of_mem_head?_drop rest
    simpa [cutPieces, Nat.add_comm 2] using h
  · split <;> simp [cutPieces]
  · next rest =>
    have h := isLineEnd_of_mem_head?_drop rest
    simpa [cutPieces, Nat.add_comm 3] using h
  · next rest =>
    have h := isLineEnd_of_mem_head?_drop rest
    split
    · simpa [cutPieces] using h
    · simp [cutPieces]
  · split <;> simp [cutPieces]
  · simp [cutPieces]

theorem cutTriviaIn_runsOut (fuel : List Char) (lineStart : Bool) (s : List Char) :
    RunsOut (Tree.leavesAll (cutTriviaIn fuel lineStart s).1)
      (cutTriviaIn fuel lineStart s).2 := by
  induction fuel generalizing lineStart s with
  | nil => simp [cutTriviaIn]
  | cons _ fuel ih =>
    have h := cutPieces_runsOut lineStart s
    rw [cutTriviaIn]
    split
    next here after heq =>
      rw [heq] at h
      split
      · simp
      · have htext := cutTriviaIn_text fuel (lineStart || here.any Tree.endsLine) after
        rw [Tree.textAll] at htext
        simp [ih, h, htext]

/-- **A line comment goes on to the end of its line.** -/
theorem cutTrivia_runsOut (lineStart : Bool) (s : List Char) :
    RunsOut (Tree.leavesAll (cutTrivia lineStart s).1) (cutTrivia lineStart s).2 :=
  cutTriviaIn_runsOut _ _ _

/-- The text begins as a comment does. -/
def beginsComment : List Char → Bool
  | '/' :: '/' :: _ | '/' :: '*' :: _ => true
  | _ => false

theorem beginsComment_iff {s : List Char} :
    beginsComment s = true ↔ ∃ c rest, s = '/' :: c :: rest ∧ (c = '/' ∨ c = '*') := by
  unfold beginsComment
  split
  · simp
  · simp
  · next hslash hstar =>
    simp only [Bool.false_eq_true, false_iff, not_exists, not_and]
    rintro c rest rfl (rfl | rfl)
    · exact hslash rest rfl
    · exact hstar rest rfl

/-- What a leaf with slashes has to do with comments, where `behind` comes after it: a slash that is
a lexeme of its own begins none, and what is blank holds no slash, or is a comment without an
end. -/
def LeafMarks (l : LeafKind × List Char) (behind : List Char) : Prop :=
  match l.1 with
  | .lexeme _ => l.2 = ['/'] → beginsComment ('/' :: behind) = false
  | .trivia .blank => '/' ∈ l.2 → beginsComment l.2 = true
  | .trivia _ => True

/-- This holds of each of the leaves; `rest` comes after them. -/
def Marks : List (LeafKind × List Char) → List Char → Prop
  | [], _ => True
  | l :: ls, rest => LeafMarks l (ls.flatMap (·.2) ++ rest) ∧ Marks ls rest

@[simp] theorem marks_nil (rest : List Char) : Marks [] rest := trivial

@[simp] theorem marks_cons (l : LeafKind × List Char) (ls : List (LeafKind × List Char))
    (rest : List Char) :
    Marks (l :: ls) rest ↔ LeafMarks l (ls.flatMap (·.2) ++ rest) ∧ Marks ls rest := Iff.rfl

@[simp] theorem marks_append (ls ms : List (LeafKind × List Char)) (rest : List Char) :
    Marks (ls ++ ms) rest ↔ Marks ls (ms.flatMap (·.2) ++ rest) ∧ Marks ms rest := by
  induction ls with
  | nil => simp
  | cons l ls ih => simp [ih, and_assoc]

theorem slash_notMem_take_blank (s : List Char) :
    '/' ∉ s.take (s.takeWhile fun d => isScriptBlank d || isLineEnd d).length := by
  induction s with
  | nil => simp
  | cons c s ih =>
    by_cases hc : (isScriptBlank c || isLineEnd c) = true
    · have hne : '/' ≠ c := by rintro rfl; exact absurd hc (by decide)
      simp [hc, hne, ih]
    · simp [hc]

theorem cutPieces_marks (lineStart : Bool) (s rest : List Char) :
    Marks (Tree.leavesAll (cutPieces (triviaAt lineStart s) s).1) rest := by
  unfold triviaAt
  split
  · simp [cutPieces, LeafMarks]
  · split <;> simp [cutPieces, LeafMarks, beginsComment, Nat.add_comm 2]
  · simp [cutPieces, LeafMarks]
  · split <;> simp [cutPieces, LeafMarks]
  · next c rest _ _ _ _ =>
    split
    · next hblank =>
      have hne : '/' ≠ c := by rintro rfl; exact absurd hblank (by decide)
      have hrest := slash_notMem_take_blank rest
      simp [cutPieces, LeafMarks, Nat.add_comm 1, hne, hrest]
    · simp [cutPieces]
  · simp [cutPieces]

theorem cutTriviaIn_marks (fuel : List Char) (lineStart : Bool) (s rest : List Char) :
    Marks (Tree.leavesAll (cutTriviaIn fuel lineStart s).1) rest := by
  induction fuel generalizing lineStart s with
  | nil => simp [cutTriviaIn]
  | cons _ fuel ih =>
    have h := cutPieces_marks lineStart s
    rw [cutTriviaIn]
    split
    next here after heq =>
      simp only [heq] at h
      split
      · simp
      · simp [ih, h]

/-- Trivia hold no slash that is a lexeme. -/
theorem cutTrivia_marks (lineStart : Bool) (s rest : List Char) :
    Marks (Tree.leavesAll (cutTrivia lineStart s).1) rest :=
  cutTriviaIn_marks _ _ _ _

theorem length_cutPieces_le (pieces : List (LeafKind × Nat)) (s : List Char) :
    (cutPieces pieces s).2.length ≤ s.length := by
  induction pieces generalizing s with
  | nil => exact Nat.le_refl _
  | cons p pieces ih =>
    have hrest := ih (s.drop p.2)
    rw [List.length_drop] at hrest
    rw [cutPieces]
    exact Nat.le_trans hrest (Nat.sub_le _ _)

/-- A piece of trivia has characters. -/
theorem length_pos_of_triviaAt {lineStart : Bool} {s : List Char} {p : LeafKind × Nat}
    {pieces : List (LeafKind × Nat)} (h : triviaAt lineStart s = p :: pieces) :
    0 < p.2 ∧ 0 < s.length := by
  unfold triviaAt at h
  split at h
  · obtain ⟨rfl, -⟩ := List.cons.inj h
    exact ⟨Nat.lt_add_right _ Nat.two_pos, Nat.zero_lt_succ _⟩
  · split at h <;>
      (obtain ⟨rfl, -⟩ := List.cons.inj h
       exact ⟨Nat.lt_add_right _ Nat.two_pos, Nat.zero_lt_succ _⟩)
  · obtain ⟨rfl, -⟩ := List.cons.inj h
    exact ⟨Nat.one_pos, Nat.zero_lt_succ _⟩
  · split at h
    · obtain ⟨rfl, -⟩ := List.cons.inj h
      exact ⟨Nat.zero_lt_succ _, Nat.zero_lt_succ _⟩
    · cases h
  · split at h
    · obtain ⟨rfl, -⟩ := List.cons.inj h
      exact ⟨Nat.lt_add_right _ Nat.one_pos, Nat.zero_lt_succ _⟩
    · cases h
  · cases h

/-- What trivia are cut off of gets shorter. -/
theorem length_cutPieces_lt (lineStart : Bool) (s : List Char)
    (h : (cutPieces (triviaAt lineStart s) s).1.isEmpty = false) :
    (cutPieces (triviaAt lineStart s) s).2.length < s.length := by
  cases hpieces : triviaAt lineStart s with
  | nil =>
    rw [hpieces] at h
    cases h
  | cons p pieces =>
    obtain ⟨hp, hs⟩ := length_pos_of_triviaAt hpieces
    have hrest := length_cutPieces_le pieces (s.drop p.2)
    rw [List.length_drop] at hrest
    rw [cutPieces]
    exact Nat.lt_of_le_of_lt hrest (Nat.sub_lt hs hp)

/-- A comment is trivia. -/
theorem triviaAt_ne_nil (lineStart : Bool) {s : List Char} (h : beginsComment s = true) :
    triviaAt lineStart s ≠ [] := by
  obtain ⟨c, rest, rfl, hc⟩ := beginsComment_iff.1 h
  cases hc with
  | inl hc =>
    rw [hc]
    exact List.cons_ne_nil _ _
  | inr hc =>
    have hblock : triviaAt lineStart ('/' :: '*' :: rest) = match blockLength? rest with
      | some n => [(.trivia .blockComment, 2 + n)]
      | none => [(.trivia .blank, 2 + rest.length)] := rfl
    rw [hc, hblock]
    split <;> exact List.cons_ne_nil _ _

/-- Where no trivia are left no comment begins. -/
theorem beginsComment_of_isEmpty (lineStart : Bool) (s : List Char)
    (h : (cutPieces (triviaAt lineStart s) s).1.isEmpty = true) : beginsComment s = false := by
  refine Bool.eq_false_iff.2 fun hbegins => ?_
  cases hpieces : triviaAt lineStart s with
  | nil => exact triviaAt_ne_nil lineStart hbegins hpieces
  | cons p pieces => simp [hpieces, cutPieces] at h

theorem beginsComment_cutTriviaIn (fuel : List Char) (lineStart : Bool) (s : List Char)
    (h : s.length ≤ fuel.length) : beginsComment (cutTriviaIn fuel lineStart s).2 = false := by
  induction fuel generalizing lineStart s with
  | nil =>
    obtain rfl := List.length_eq_zero_iff.1 (Nat.le_zero.1 h)
    rfl
  | cons c fuel ih =>
    have hempty := beginsComment_of_isEmpty lineStart s
    have hlength := length_cutPieces_lt lineStart s
    rw [cutTriviaIn]
    split
    next here after heq =>
      rw [heq] at hempty hlength
      split
      · next hnone => exact hempty hnone
      · next hsome =>
        have hlt := hlength (by simpa using hsome)
        rw [List.length_cons] at h
        exact ih _ _ (by dsimp only at hlt; omega)

/-- **No comment begins behind trivia.** -/
theorem beginsComment_cutTrivia (lineStart : Bool) (s : List Char) :
    beginsComment (cutTrivia lineStart s).2 = false :=
  beginsComment_cutTriviaIn _ _ _ (Nat.le_refl _)

/-- The character begins a tag or a brace between tags. -/
def OpensMarkup (c : Char) : Prop :=
  c = '{' ∨ c = '<'

/-- The character ends a tag or a brace between tags. -/
def ClosesMarkup (c : Char) : Prop :=
  c = '}' ∨ c = '>'

/-- Each text between tags among the leaves stands between tags or braces; `before` comes before
the leaves and `rest` after them. -/
def Bordered (before : List Char) : List (LeafKind × List Char) → List Char → Prop
  | [], _ => True
  | l :: ls, rest =>
    (l.1 = .lexeme .markupText → (∀ c ∈ before.getLast?, ClosesMarkup c) ∧
      ∀ c ∈ (ls.flatMap (·.2) ++ rest).head?, OpensMarkup c) ∧ Bordered (before ++ l.2) ls rest

@[simp] theorem bordered_nil (before rest : List Char) : Bordered before [] rest := trivial

@[simp] theorem bordered_cons (before : List Char) (l : LeafKind × List Char)
    (ls : List (LeafKind × List Char)) (rest : List Char) : Bordered before (l :: ls) rest ↔
      (l.1 = .lexeme .markupText → (∀ c ∈ before.getLast?, ClosesMarkup c) ∧
        ∀ c ∈ (ls.flatMap (·.2) ++ rest).head?, OpensMarkup c) ∧
          Bordered (before ++ l.2) ls rest := Iff.rfl

@[simp] theorem bordered_append (before : List Char) (ls ms : List (LeafKind × List Char))
    (rest : List Char) : Bordered before (ls ++ ms) rest ↔
      Bordered before ls (ms.flatMap (·.2) ++ rest) ∧
        Bordered (before ++ ls.flatMap (·.2)) ms rest := by
  induction ls generalizing before with
  | nil => simp
  | cons l ls ih => simp [ih, and_assoc]

theorem bordered_of_forall_ne {ls : List (LeafKind × List Char)}
    (h : ∀ l ∈ ls, l.1 ≠ .lexeme .markupText) (before rest : List Char) :
    Bordered before ls rest := by
  induction ls generalizing before with
  | nil => exact trivial
  | cons l ls ih =>
    have hrest : ∀ m ∈ ls, m.1 ≠ .lexeme .markupText := fun m hm =>
      h m (List.mem_cons_of_mem _ hm)
    exact ⟨fun htext => absurd htext (h l List.mem_cons_self), ih hrest _⟩

theorem kind_of_mem_cutPieces {pieces : List (LeafKind × Nat)} {s : List Char}
    {l : LeafKind × List Char} (h : l ∈ Tree.leavesAll (cutPieces pieces s).1) :
    ∃ p ∈ pieces, p.1 = l.1 := by
  induction pieces generalizing s with
  | nil => cases h
  | cons p pieces ih =>
    rw [cutPieces, Tree.leavesAll_cons, Tree.leaves_leaf] at h
    cases List.mem_cons.1 h with
    | inl h =>
      rw [h]
      exact ⟨p, List.mem_cons_self, rfl⟩
    | inr h =>
      obtain ⟨q, hq, hkind⟩ := ih h
      exact ⟨q, List.mem_cons_of_mem _ hq, hkind⟩

theorem kind_triviaAt (lineStart : Bool) (s : List Char) :
    ∀ p ∈ triviaAt lineStart s, p.1 ≠ .lexeme .markupText := by
  unfold triviaAt
  split
  · simp
  · split <;> simp
  · simp
  · split <;> simp
  · split <;> simp
  · simp

/-- Trivia hold no text between tags. -/
theorem cutTrivia_bordered (lineStart : Bool) (s before rest : List Char) :
    Bordered before (Tree.leavesAll (cutTrivia lineStart s).1) rest := by
  refine bordered_of_forall_ne ?_ before rest
  suffices hfuel : ∀ (fuel : List Char) (lineStart : Bool) (s : List Char),
      ∀ l ∈ Tree.leavesAll (cutTriviaIn fuel lineStart s).1, l.1 ≠ .lexeme .markupText by
    exact hfuel s lineStart s
  intro fuel
  induction fuel with
  | nil => exact fun _ _ l hl => absurd hl List.not_mem_nil
  | cons c fuel ih =>
    intro lineStart s l hl
    rw [cutTriviaIn] at hl
    split at hl
    next here after heq =>
      split at hl
      · exact absurd hl List.not_mem_nil
      · rw [Tree.leavesAll_append, List.mem_append] at hl
        cases hl with
        | inl hl =>
          obtain ⟨p, hp, hkind⟩ := kind_of_mem_cutPieces (by rw [heq]; exact hl)
          exact hkind ▸ kind_triviaAt lineStart s p hp
        | inr hl => exact ih _ _ l hl

/-! ### Words -/

/-- The value of a hexadecimal digit. -/
def hexValue? (c : Char) : Option Nat :=
  if c.isDigit then some (c.toNat - '0'.toNat)
  else if 'a' ≤ c && c ≤ 'f' then some (c.toNat - 'a'.toNat + 10)
  else if 'A' ≤ c && c ≤ 'F' then some (c.toNat - 'A'.toNat + 10)
  else none

/-- The value of hexadecimal digits. -/
def hexNumber (s : List Char) : Nat :=
  s.foldl (fun n c => 16 * n + (hexValue? c).getD 0) 0

/-- The code point and length of a Unicode escape after its `\u`. -/
def codeEscape? : List Char → Option (Nat × Nat)
  | '{' :: rest =>
    let digits := rest.takeWhile fun c => (hexValue? c).isSome
    if !digits.isEmpty && rest[digits.length]? == some '}' && hexNumber digits ≤ 0x10ffff then
      some (hexNumber digits, digits.length + 2)
    else none
  | rest =>
    let digits := rest.take 4
    if digits.length == 4 && digits.all fun c => (hexValue? c).isSome then
      some (hexNumber digits, 4)
    else none

/-- The spelling and length of the identifier that goes on after `skip` characters of a text,
those included; `none` if an escape in it is malformed. Names in markup may hold dashes. -/
def wordAt (dashes : Bool) : Bool → Nat → List Char → Option (List Char × Nat)
  | _, _, [] => some ([], 0)
  | first, skip + 1, _ :: rest =>
    (wordAt dashes first skip rest).map fun (spelling, n) => (spelling, n + 1)
  | first, 0, c :: rest =>
    let belongs (c : Char) := if first then isIdentifierStart c else isIdentifierPart c
    if c == '\\' then
      match rest with
      | 'u' :: digits => do
        let (code, n) ← codeEscape? digits
        let c := Char.ofNat code
        if belongs c then
          let (spelling, m) ← wordAt dashes false (n + 1) rest
          return (c :: spelling, m + 1)
        else none
      | _ => none
    else if belongs c || (dashes && !first && c == '-') then do
      let (spelling, m) ← wordAt dashes false 0 rest
      return (c :: spelling, m + 1)
    else some ([], 0)

/-! ### Numbers -/

/-- The length of a run of digits and underscores. -/
def digitsLength (isDigit : Char → Bool) (s : List Char) : Nat :=
  (s.takeWhile fun c => isDigit c || c == '_').length

/-- The length of a number in a radix of its own, after its two-character mark. -/
def radixNumberAt (isDigit : Char → Bool) (s : List Char) : Option Nat :=
  let n := 2 + digitsLength isDigit (s.drop 2)
  if ((s.take n).drop 2).any isDigit then some (if s[n]? == some 'n' then n + 1 else n) else none

/-- The length of a decimal number; `none` if its exponent has no digits. -/
def decimalNumberAt (s : List Char) : Option Nat :=
  let whole := digitsLength Char.isDigit s
  if s[whole]? == some 'n' then some (whole + 1)
  else
    let n := if s[whole]? == some '.' then
      whole + 1 + digitsLength Char.isDigit (s.drop (whole + 1)) else whole
    if s[n]? == some 'e' || s[n]? == some 'E' then
      let m := if s[n + 1]? == some '+' || s[n + 1]? == some '-' then n + 2 else n + 1
      let exponent := digitsLength Char.isDigit (s.drop m)
      if exponent == 0 then none else some (m + exponent)
    else some n

/-- The length of the number at the head of a text, if it is well formed. -/
def numberAt (s : List Char) : Option Nat :=
  match s with
  | '0' :: 'x' :: _ | '0' :: 'X' :: _ => radixNumberAt (fun c => (hexValue? c).isSome) s
  | '0' :: 'o' :: _ | '0' :: 'O' :: _ => radixNumberAt (fun c => '0' ≤ c && c ≤ '7') s
  | '0' :: 'b' :: _ | '0' :: 'B' :: _ => radixNumberAt (fun c => c == '0' || c == '1') s
  | _ => decimalNumberAt s

/-! ### Strings, templates, regexes and markup -/

/-- The length of an escape after its backslash; `none` if it is malformed. -/
def escapeLength? : List Char → Option Nat
  | 'x' :: rest =>
    let digits := rest.take 2
    if digits.length == 2 && digits.all fun c => (hexValue? c).isSome then some 3 else none
  | 'u' :: rest => (codeEscape? rest).map fun (_, n) => n + 1
  | '\r' :: '\n' :: _ => some 2
  | _ :: _ => some 1
  | [] => some 0

/-- The length of a string after its opening quote, with the closing quote; a line end closes
it too. The first `skip` characters belong to it whatever they are. `none` if an escape in it is
malformed. -/
def stringAt (quote : Char) : Nat → List Char → Option Nat
  | _, [] => some 0
  | skip + 1, _ :: rest => (stringAt quote skip rest).map (· + 1)
  | 0, c :: rest =>
    if c == '\\' then
      match escapeLength? rest with
      | some n => (stringAt quote n rest).map (· + 1)
      | none => none
    else if c == quote then some 1
    else if c == '\n' || c == '\r' then some 0
    else (stringAt quote 0 rest).map (· + 1)

/-- The length of an escape of a template after its backslash; `none` if it is malformed. -/
def rawEscapeLength? (s : List Char) : Option Nat :=
  match s with
  | '0' :: d :: _ => if d.isDigit then none else some 1
  | d :: _ => if d.isDigit then none else escapeLength? s
  | [] => some 0

/-- The length of the raw text of a template up to a substitution or its end, and the place of
the first malformed escape; `none` if the text ends before that. The first `skip` characters
belong to it whatever they are. -/
def quasiAt : Nat → List Char → Option (Nat × Option Nat)
  | _, [] => none
  | skip + 1, _ :: rest =>
    (quasiAt skip rest).map fun (n, place) => (n + 1, place.map (· + 1))
  | 0, c :: rest =>
    if c == '\x60' || (c == '$' && rest.head? == some '\x7b') then some (0, none)
    else if c == '\\' then
      match rawEscapeLength? rest with
      | some skip => (quasiAt skip rest).map fun (n, place) => (n + 1, place.map (· + 1))
      | none => (quasiAt 1 rest).map fun (n, _) => (n + 1, some 0)
    else (quasiAt 0 rest).map fun (n, place) => (n + 1, place.map (· + 1))

/-- The length of a regex after its first slash, without flags; `none` if the line ends
before. -/
def regexAt (inClass escaped : Bool) : List Char → Option Nat
  | [] => none
  | c :: rest =>
    if isLineEnd c then none
    else if escaped then (regexAt inClass false rest).map (· + 1)
    else if c == '/' && !inClass then some 1
    else
      let inClass := c == '[' || (inClass && c != ']')
      (regexAt inClass (c == '\\') rest).map (· + 1)

/-- The length of text between tags. -/
def markupTextLength (s : List Char) : Nat :=
  (s.takeWhile fun c => c != '{' && c != '<').length

/-! ### Tokens -/

/-- The ways the grammar asks for the next lexeme. -/
inductive Mode
  | normal
  /-- Between tags: text, or a single sign. -/
  | markup
  /-- The raw text of a template. -/
  | template
  /-- The end of that raw text. -/
  | templateEnd
  deriving DecidableEq, Repr

/-- The signs with their characters. -/
def signTexts : List (List Char × String) :=
  signs.map fun s => (s.toList, s)

/-- The longest sign at the head of a text. A chain sign before a digit is a question mark. -/
def signAt (s : List Char) : Option (String × Nat) :=
  match s with
  | '?' :: '.' :: d :: _ => if d.isDigit then some ("?", 1) else some ("?.", 2)
  | _ => (signTexts.find? fun (chars, _) => chars.isPrefixOf s).map fun (chars, name) =>
    (name, chars.length)

/-- The number at the head of a text, which no identifier may follow. -/
def numberToken (s : List Char) : Token × Nat :=
  match numberAt s with
  | none => (.bad .badNumber, 1)
  | some n => if s[n]?.any isIdentifierStart then (.bad .nameAfterNumber, n) else (.number, n)

/-- The lexeme at the head of a text, and its length. -/
def tokenAt (s : List Char) : Token × Nat :=
  match s with
  | [] => (.endOfText, 0)
  | c :: rest =>
    if c == '"' || c == '\'' then
      match stringAt c 0 rest with
      | some n => (.string, 1 + n)
      | none => (.bad .badEscape, 1)
    else if c == '\x60' then (.sign "\x60", 1)
    else if c.isDigit || (c == '.' && (rest.head?.any Char.isDigit)) then numberToken s
    else if c == '\\' || isIdentifierStart c then
      match wordAt false true 0 s with
      | some (spelling, n) => (.word (String.ofList spelling), n)
      | none => (.bad .badEscape, 1)
    else
      match signAt s with
      | some (name, n) => (.sign name, n)
      | none => (.bad .unexpectedCharacter, 1)

/-- The first character as a sign of its own. -/
def singleSign (s : List Char) : Token × Nat :=
  match s with
  | [] => (.endOfText, 0)
  | c :: _ => (.sign (String.singleton c), 1)

/-- The lexeme that a mode reads at the head of a text, and its length. -/
def tokenIn (mode : Mode) (s : List Char) : Token × Nat :=
  match mode with
  | .normal => tokenAt s
  | .markup =>
    let n := markupTextLength s
    if n = 0 then singleSign s else (.markupText, n)
  | .template =>
    match quasiAt 0 s with
    | some (n, place) => (.quasi place, n)
    | none => (.bad .unterminatedTemplate, s.length)
  | .templateEnd =>
    match s with
    | '$' :: '{' :: _ => (.sign "$\x7b", 2)
    | '\x60' :: _ => (.sign "\x60", 1)
    | _ => (.bad .unexpectedCharacter, 0)

/-- The angle bracket at the head of a text. -/
def angleToken (s : List Char) : Token × Nat :=
  match s with
  | '<' :: _ => (.sign "<", 1)
  | '>' :: _ => (.sign ">", 1)
  | _ => (.bad .unexpectedCharacter, 0)

/-- A regex with its flags, read from its first slash. -/
def regexToken (s : List Char) : Token × Nat :=
  match regexAt false false (s.drop 1) with
  | some n => (.regex, 1 + n + ((s.drop (1 + n)).takeWhile isIdentifierPart).length)
  | none => (.bad .unterminatedRegex, 0)

/-- A name in markup, which may hold dashes. -/
def markupNameToken (s : List Char) : Token × Nat :=
  match wordAt true true 0 s with
  | some (spelling, n) => (.word (String.ofList spelling), n)
  | none => (.bad .badEscape, 1)

/-- A string in markup: no escapes, and lines may end inside. -/
def markupStringToken (s : List Char) : Token × Nat :=
  match s with
  | quote :: rest =>
    let inside := rest.takeWhile (· != quote)
    if inside.length < rest.length then (.string, inside.length + 2)
    else (.bad .unterminatedString, 0)
  | [] => (.endOfText, 0)

/-! ### Slashes that are lexemes -/

/-- A slash that is read as a lexeme of its own begins no comment. -/
def KeepsSlash (scan : List Char → Token × Nat) : Prop :=
  ∀ s, s.take (scan s).2 = ['/'] → beginsComment s = false

theorem KeepsSlash.of_length {scan : List Char → Token × Nat}
    (h : ∀ s, s.take (scan s).2 = ['/'] → s = ['/'] ∨ (scan s).2 ≠ 1) : KeepsSlash scan := by
  intro s hs
  rw [Bool.eq_false_iff, ne_eq, beginsComment_iff]
  rintro ⟨c, rest, rfl, -⟩
  rcases h _ hs with heq | hne
  · cases heq
  · match hn : (scan ('/' :: c :: rest)).2 with
    | 0 => simp [hn] at hs
    | 1 => exact hne hn
    | n + 2 => simp [hn] at hs

theorem keepsSlash_angleToken : KeepsSlash angleToken := by
  intro s h
  unfold angleToken at h
  split at h <;> simp at h

theorem keepsSlash_regexToken : KeepsSlash regexToken := by
  apply KeepsSlash.of_length
  intro s h
  unfold regexToken at h ⊢
  split at h
  · next n hn =>
    have hpos : n ≠ 0 := by
      rintro rfl
      cases hs : s.drop 1 with
      | nil => simp [hs, regexAt] at hn
      | cons c rest =>
        by_cases hc : c = '/' <;> simp [hs, regexAt, hc] at hn
    exact .inr (by dsimp only; omega)
  · simp at h

/-- A slash begins no name. -/
theorem keepsSlash_markupNameToken : KeepsSlash markupNameToken := by
  intro s h
  cases s with
  | nil => cases h
  | cons c rest =>
    by_cases hc : c = '/'
    · have hstart : isIdentifierStart '/' = false := by decide +kernel
      simp [hc, markupNameToken, wordAt, hstart] at h
    · have hlength : (markupNameToken (c :: rest)).2 ≠ 0 := fun hzero => by simp [hzero] at h
      obtain ⟨n, hn⟩ := Nat.exists_eq_succ_of_ne_zero hlength
      rw [hn, List.take_succ_cons] at h
      exact absurd (List.cons.inj h).1 hc

theorem keepsSlash_markupStringToken : KeepsSlash markupStringToken := by
  apply KeepsSlash.of_length
  intro s h
  unfold markupStringToken at h ⊢
  split
  · next quote rest =>
    dsimp only at h ⊢
    split
    · exact .inr (by simp)
    · next hlength => simp [hlength] at h
  · simp at h

/-- Text between tags that is a slash ends at a brace or a tag. -/
theorem keepsSlash_markup : KeepsSlash (tokenIn .markup) := by
  intro s h
  rw [Bool.eq_false_iff, ne_eq, beginsComment_iff]
  rintro ⟨c, rest, rfl, hc⟩
  have hlong : markupTextLength ('/' :: c :: rest) = markupTextLength rest + 2 := by
    rcases hc with rfl | rfl <;> simp [markupTextLength]
  simp [tokenIn, hlong] at h

/-- So does the text of a template. -/
theorem keepsSlash_template : KeepsSlash (tokenIn .template) := by
  intro s h
  rw [Bool.eq_false_iff, ne_eq, beginsComment_iff]
  rintro ⟨c, rest, rfl, hc⟩
  have hstep : quasiAt 0 ('/' :: c :: rest) = (quasiAt 0 rest).map fun (n, place) =>
      (n + 2, (place.map (· + 1)).map (· + 1)) := by
    rcases hc with rfl | rfl <;> cases hrest : quasiAt 0 rest <;> simp [quasiAt, hrest]
  cases hrest : quasiAt 0 rest <;> simp [tokenIn, hstep, hrest] at h

theorem keepsSlash_tokenIn {mode : Mode} (hmode : mode ≠ .normal) : KeepsSlash (tokenIn mode) := by
  cases mode with
  | normal => exact absurd rfl hmode
  | markup => exact keepsSlash_markup
  | template => exact keepsSlash_template
  | templateEnd =>
    intro s h
    simp only [tokenIn] at h
    split at h <;> simp at h

/-! ### Signs and text between tags -/

/-- What a token says of its text: a sign is its own spelling. Text between tags is no token of
code. -/
def Token.Spells : Token → List Char → Prop
  | .sign spelling, text => spelling.toList = text
  | .markupText, _ => False
  | _, _ => True

/-- A way to read lexemes of code: a slash that is one begins no comment, and each sign is its own
spelling. -/
structure ReadsCode (scan : List Char → Token × Nat) : Prop where
  keepsSlash : KeepsSlash scan
  spells : ∀ s, (scan s).1.Spells (s.take (scan s).2)

theorem readsCode_angleToken : ReadsCode angleToken := by
  refine ⟨keepsSlash_angleToken, fun s => ?_⟩
  unfold angleToken
  split <;> simp [Token.Spells]

theorem readsCode_regexToken : ReadsCode regexToken := by
  refine ⟨keepsSlash_regexToken, fun s => ?_⟩
  unfold regexToken
  split <;> trivial

theorem readsCode_markupNameToken : ReadsCode markupNameToken := by
  refine ⟨keepsSlash_markupNameToken, fun s => ?_⟩
  unfold markupNameToken
  split <;> trivial

theorem readsCode_markupStringToken : ReadsCode markupStringToken := by
  refine ⟨keepsSlash_markupStringToken, fun s => ?_⟩
  unfold markupStringToken
  split
  · dsimp only
    split <;> trivial
  · trivial

/-- The sign at the head of a text is the text of its length. -/
theorem take_of_signAt {s : List Char} {name : String} {n : Nat} (h : signAt s = some (name, n)) :
    s.take n = name.toList := by
  unfold signAt at h
  split at h
  · split at h <;>
      (obtain ⟨rfl, rfl⟩ := Prod.mk.inj (Option.some.inj h)
       simp)
  · obtain ⟨found, hfind, hname⟩ := Option.map_eq_some_iff.1 h
    obtain ⟨rfl, rfl⟩ := Prod.mk.inj hname
    have hfound : found.1.isPrefixOf s = true :=
      List.find?_some (p := fun sign : List Char × String => sign.1.isPrefixOf s) hfind
    have htake := List.isPrefixOf_iff_prefix.1 hfound
    obtain ⟨spelling, -, rfl⟩ := List.mem_map.1 (List.mem_of_find?_eq_some hfind)
    exact (List.prefix_iff_eq_take.1 htake).symm

theorem spells_tokenAt (s : List Char) : (tokenAt s).1.Spells (s.take (tokenAt s).2) := by
  unfold tokenAt
  split
  · trivial
  · next c rest =>
    split
    · split <;> trivial
    split
    · next hquote =>
      obtain rfl := eq_of_beq hquote
      rfl
    split
    · unfold numberToken
      split
      · trivial
      · split <;> trivial
    split
    · split <;> trivial
    split
    · next hsign => exact (take_of_signAt hsign).symm
    · trivial

/-- The lexemes of code and of templates. -/
theorem spells_tokenIn {mode : Mode} (hmode : mode ≠ .markup) (s : List Char) :
    (tokenIn mode s).1.Spells (s.take (tokenIn mode s).2) := by
  cases mode with
  | normal => exact spells_tokenAt s
  | markup => exact absurd rfl hmode
  | template =>
    simp only [tokenIn]
    split <;> trivial
  | templateEnd =>
    simp only [tokenIn]
    split <;> simp [Token.Spells]

theorem opensMarkup_of_mem_head?_drop (s : List Char) :
    ∀ c ∈ (s.drop (markupTextLength s)).head?, OpensMarkup c := by
  induction s with
  | nil => simp [markupTextLength]
  | cons c s ih =>
    by_cases hc : c = '{' ∨ c = '<'
    · have hlength : markupTextLength (c :: s) = 0 := by
        cases hc with
        | inl hc => simp [markupTextLength, hc]
        | inr hc => simp [markupTextLength, hc]
      rw [hlength]
      exact fun d hd => Option.some.inj hd ▸ hc
    · rw [not_or] at hc
      simpa [markupTextLength, hc.1, hc.2] using ih

/-- **Between tags a text goes on to the next tag or brace**, and if one stands there it is a sign
of its own. -/
theorem tokenIn_markup (s : List Char) :
    ((tokenIn .markup s).1 = .markupText ∧ (∃ c ∈ s.head?, ¬OpensMarkup c) ∧
        ∀ c ∈ (s.drop (tokenIn .markup s).2).head?, OpensMarkup c) ∨
      (tokenIn .markup s).1.Spells (s.take (tokenIn .markup s).2) := by
  by_cases hn : markupTextLength s = 0
  · right
    simp only [tokenIn, hn, if_pos]
    cases s <;> simp [singleSign, Token.Spells]
  · left
    simp only [tokenIn, if_neg hn]
    refine ⟨trivial, ?_, opensMarkup_of_mem_head?_drop s⟩
    cases s with
    | nil => exact absurd rfl hn
    | cons c s =>
      refine ⟨c, rfl, fun hc => hn ?_⟩
      cases hc with
      | inl hc => simp [markupTextLength, hc]
      | inr hc => simp [markupTextLength, hc]

end Untranslated.Script
