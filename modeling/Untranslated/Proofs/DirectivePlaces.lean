import Untranslated.Proofs.LinePlaces
import Untranslated.Proofs.StrippedLines
import Untranslated.Proofs.Verdicts

/-!
# Where directives stand

A directive counts wherever its mark stands on a line. Every line that is let through is let through
by one mark, and every mark stands in one of a few places of the tree: most begin a comment, but a
mark in a comment, in a comment without an end or in a lexeme, as a string, counts too.

* `marks`: the directives of a script in the order of the text, with their places.
* `Mark.LetsThrough`: the lines that a mark lets through, by the marks before and behind it.
* `MarkPlace`: where the mark of a directive may stand in a tree.
* `actsByMarks_of_read`: the lines let through are those of the marks, and each mark has its place.
-/

namespace Untranslated

open Script (Dialect Lexeme LeafKind Tree Trivia read beginsComment)
open Text (Line lines)

/-! ### The marks of a script -/

/-- A directive with the place of the mark before it: the line, and how many characters of the line
come before. -/
structure Mark where
  line : Nat
  column : Nat
  directive : Directive
  deriving DecidableEq, Repr

/-- The directive at the head of a text. -/
def directiveAt? (s : List Char) : Option Directive :=
  (directiveNameAt? s).bind Directive.ofName?

/-- The marks of a line behind its first `column` characters, from left to right. -/
def lineMarks (line column : Nat) : List Char → List Mark
  | [] => []
  | c :: rest =>
    (directiveAt? (c :: rest)).toList.map (⟨line, column, ·⟩) ++ lineMarks line (column + 1) rest

/-- The marks of lines numbered from `number` on. -/
def marksFrom (number : Nat) : List (List Char) → List Mark
  | [] => []
  | l :: ls => lineMarks number 0 l ++ marksFrom (number + 1) ls

/-- The marks of a script in the order of the text. -/
def marks (s : List Char) : List Mark :=
  marksFrom 1 (lines s)

/-- One mark stands before another. -/
def Mark.Before (m m' : Mark) : Prop :=
  m.line < m'.line ∨ m.line = m'.line ∧ m.column < m'.column

section Reading

variable {n column : Nat} {m : Mark}

theorem map_directive_lineMarks (n column : Nat) (l : List Char) :
    (lineMarks n column l).map (·.directive) = directives l := by
  induction l generalizing column with
  | nil => rfl
  | cons c rest ih =>
    rw [lineMarks, directives, List.map_append, ih, List.map_map]
    exact congrArg (· ++ _) (List.map_id _)

/-- **The marks of a line are where it has a directive.** -/
theorem mem_lineMarks {l : List Char} :
    m ∈ lineMarks n column l ↔ m.line = n ∧ ∃ x rest, l = x ++ rest ∧
      m.column = column + x.length ∧ directiveAt? rest = some m.directive := by
  induction l generalizing column with
  | nil =>
    simp only [lineMarks, List.not_mem_nil, false_iff]
    rintro ⟨-, x, rest, hl, -, hrest⟩
    obtain ⟨-, rfl⟩ := List.append_eq_nil_iff.1 hl.symm
    cases hrest
  | cons c l ih =>
    -- A mark stands at the head of what is left of the line, or behind its first character.
    rw [lineMarks, List.mem_append, ih]
    simp only [List.mem_map, Option.mem_toList]
    constructor
    · rintro (⟨d, hd, rfl⟩ | ⟨hline, x, rest, rfl, hcolumn, hrest⟩)
      · exact ⟨rfl, [], c :: l, rfl, rfl, hd⟩
      · refine ⟨hline, c :: x, rest, rfl, ?_, hrest⟩
        rw [hcolumn, List.length_cons, Nat.add_right_comm, Nat.add_assoc]
    · rintro ⟨hline, x, rest, hl, hcolumn, hrest⟩
      cases x with
      | nil =>
        rw [List.nil_append] at hl
        subst hl
        obtain ⟨line, column', directive⟩ := m
        obtain rfl : line = n := hline
        obtain rfl : column' = column := hcolumn
        exact .inl ⟨directive, hrest, rfl⟩
      | cons d x =>
        obtain ⟨rfl, rfl⟩ := List.cons.inj hl
        refine .inr ⟨hline, x, rest, rfl, ?_, hrest⟩
        rw [hcolumn, List.length_cons, Nat.add_right_comm, Nat.add_assoc]

theorem pairwise_lineMarks (n column : Nat) (l : List Char) :
    (lineMarks n column l).Pairwise Mark.Before := by
  induction l generalizing column with
  | nil => exact .nil
  | cons c l ih =>
    rw [lineMarks, List.pairwise_append]
    refine ⟨?_, ih (column + 1), fun m hm m' hm' => ?_⟩
    · cases directiveAt? (c :: l) <;> simp
    · obtain ⟨d, -, rfl⟩ := List.mem_map.1 hm
      obtain ⟨hline, x, rest, -, hcolumn, -⟩ := mem_lineMarks.1 hm'
      exact .inr ⟨hline.symm, by dsimp only; omega⟩

theorem mem_marksFrom {ls : List (List Char)} :
    m ∈ marksFrom n ls ↔ ∃ k l, ls[k]? = some l ∧ m ∈ lineMarks (n + k) 0 l := by
  induction ls generalizing n with
  | nil => simp [marksFrom]
  | cons l ls ih =>
    rw [marksFrom, List.mem_append, ih]
    constructor
    · rintro (hm | ⟨k, l', hk, hm⟩)
      · exact ⟨0, l, rfl, hm⟩
      · exact ⟨k + 1, l', hk, by rwa [← Nat.add_assoc, Nat.add_right_comm]⟩
    · rintro ⟨_ | k, l', hk, hm⟩
      · obtain rfl := Option.some.inj hk
        exact .inl hm
      · exact .inr ⟨k, l', hk, by rwa [Nat.add_right_comm, Nat.add_assoc]⟩

/-- **Marks come in the order of the text.** -/
theorem pairwise_marksFrom (n : Nat) (ls : List (List Char)) :
    (marksFrom n ls).Pairwise Mark.Before := by
  induction ls generalizing n with
  | nil => exact .nil
  | cons l ls ih =>
    rw [marksFrom, List.pairwise_append]
    refine ⟨pairwise_lineMarks n 0 l, ih (n + 1), fun m hm m' hm' => .inl ?_⟩
    obtain ⟨hline, -⟩ := mem_lineMarks.1 hm
    obtain ⟨k, l', -, hm'⟩ := mem_marksFrom.1 hm'
    obtain ⟨hline', -⟩ := mem_lineMarks.1 hm'
    omega

/-- **The marks of a script are the places where a line has a directive.** -/
theorem mem_marks_iff {s : List Char} : m ∈ marks s ↔ ∃ (l : Line s m.line) (x rest : List Char),
    l.content = x ++ rest ∧ x.length = m.column ∧ directiveAt? rest = some m.directive := by
  rw [marks, mem_marksFrom]
  constructor
  · rintro ⟨k, line, hk, hm⟩
    obtain ⟨hline, x, rest, rfl, hcolumn, hrest⟩ := mem_lineMarks.1 hm
    obtain ⟨l, hl⟩ := Text.getElem?_lines_iff.1 hk
    obtain ⟨number, column, directive⟩ := m
    obtain rfl : number = k + 1 := hline.trans (Nat.add_comm 1 k)
    exact ⟨l, x, rest, hl, (hcolumn.trans (Nat.zero_add _)).symm, hrest⟩
  · rintro ⟨l, x, rest, hl, hcolumn, hrest⟩
    obtain ⟨number, column, directive⟩ := m
    obtain ⟨k, rfl⟩ : ∃ k, number = k + 1 := ⟨_, l.number_eq.symm⟩
    refine ⟨k, x ++ rest, Text.getElem?_lines_iff.2 ⟨l, hl⟩, mem_lineMarks.2 ?_⟩
    exact ⟨Nat.add_comm k 1, x, rest, rfl, hcolumn.symm.trans (Nat.zero_add _).symm, hrest⟩

end Reading

/-! ### Lines that marks let through -/

/-- Each range that these marks open is closed by one of them. -/
def Closed : List Mark → Prop
  | [] => True
  | m :: ms => (m.directive = .disable → ∃ e ∈ ms, e.directive = .enable) ∧ Closed ms

/-- None of these marks closes a range before line `n`. -/
def StaysOpen (ms : List Mark) (n : Nat) : Prop :=
  ∀ e ∈ ms, e.directive = .enable → n ≤ e.line

/-- The mark is for one line, and it is this one. -/
def Mark.IsFor (m : Mark) (n : Nat) : Prop :=
  m.directive = .ignoreLine ∧ n = m.line ∨ m.directive = .ignoreNextLine ∧ n = m.line + 1

/-- **A mark lets a line through**, where `earlier` and `later` are the marks before it and behind
it. -/
inductive Mark.LetsThrough (earlier : List Mark) (m : Mark) (later : List Mark) (n : Nat) : Prop
  | line : m.IsFor n → m.LetsThrough earlier later n
  /-- It opens a range, as none is open, and the line is in the range. -/
  | range : m.directive = .disable → Closed earlier → m.line ≤ n → StaysOpen later n →
      m.LetsThrough earlier later n

namespace Ignores

/-- What a mark says takes effect. -/
def take (i : Ignores) (m : Mark) : Ignores :=
  i.apply m.line m.directive

theorem applyLines_eq_foldl (n : Nat) (i : Ignores) (ls : List (List Char)) :
    applyLines n i ls = (marksFrom n ls).foldl take i := by
  induction ls generalizing n i with
  | nil => rfl
  | cons l ls ih =>
    rw [applyLines, ih, marksFrom, List.foldl_append]
    congr 1
    rw [← map_directive_lineMarks n 0 l, List.foldl_map]
    refine List.foldl_ext _ _ _ fun i m hm => ?_
    rw [take, (mem_lineMarks.1 hm).1]

/-- The lines let through are what the marks make of it, one after the other. -/
theorem ofSource_eq_foldl (s : List Char) : ofSource s = (marks s).foldl take {} :=
  applyLines_eq_foldl 1 {} (Text.lines s)

/-- A line is let through for itself, or in a range that has an end. -/
def Settled (i : Ignores) (n : Nat) : Prop :=
  n ∈ i.lines ∨ ∃ r ∈ i.ranges, r.1 ≤ n ∧ n ≤ r.2

theorem contains_iff {i : Ignores} {n : Nat} :
    i.contains n = true ↔ i.Settled n ∨ ∃ start, i.openFrom = some start ∧ start ≤ n := by
  simp [contains, Settled, Option.any_eq_true]

/-- **What one mark settles**: its line, or the range that it closes. -/
theorem settled_take {i : Ignores} {m : Mark} {n : Nat} : (i.take m).Settled n ↔
    i.Settled n ∨ m.IsFor n ∨
      m.directive = .enable ∧ ∃ start, i.openFrom = some start ∧ start ≤ n ∧ n ≤ m.line := by
  unfold take Settled Mark.IsFor
  cases m.directive with
  | ignoreLine => simp [apply, or_right_comm]
  | ignoreNextLine => simp [apply, or_right_comm]
  | disable => simp [apply]
  | enable => cases hopen : i.openFrom <;> simp [apply, hopen, or_assoc]

/-- **What one mark does to the open range.** -/
theorem openFrom_take (i : Ignores) (m : Mark) : (i.take m).openFrom =
    match m.directive with
    | .disable => i.openFrom.or (some m.line)
    | .enable => none
    | _ => i.openFrom := by
  unfold take
  cases m.directive with
  | ignoreLine => rfl
  | ignoreNextLine => rfl
  | disable => rfl
  | enable => cases hopen : i.openFrom <;> simp [apply, hopen]

/-- **No range is open behind marks** if all are closed that they open, and the one that was open
before. -/
theorem openFrom_foldl (i : Ignores) (ms : List Mark) : (ms.foldl take i).openFrom = none ↔
    (i.openFrom = none ∨ ∃ e ∈ ms, e.directive = .enable) ∧ Closed ms := by
  induction ms generalizing i with
  | nil => simp [Closed]
  | cons m ms ih =>
    -- The state is any, so what the first mark leaves is the state for those behind it.
    rw [List.foldl_cons, ih, openFrom_take]
    cases hdirective : m.directive with
    | ignoreLine => simp [hdirective, Closed]
    | ignoreNextLine => simp [hdirective, Closed]
    | disable => simp +contextual [hdirective, Closed]
    | enable => simp [hdirective, Closed]

/-- One of the marks lets the line through, if `i` is what came before them. -/
def LetThroughBy (i : Ignores) (ms : List Mark) (n : Nat) : Prop :=
  ∃ earlier m later, ms = earlier ++ m :: later ∧ (m.IsFor n ∨
    m.directive = .disable ∧ (earlier.foldl take i).openFrom = none ∧ m.line ≤ n ∧
      StaysOpen later n)

/-- The mark that lets the line through is the first one, or comes later. -/
theorem letThroughBy_cons {i : Ignores} {m : Mark} {ms : List Mark} {n : Nat} :
    LetThroughBy i (m :: ms) n ↔
      (m.IsFor n ∨ m.directive = .disable ∧ i.openFrom = none ∧ m.line ≤ n ∧ StaysOpen ms n) ∨
      LetThroughBy (i.take m) ms n := by
  constructor
  · rintro ⟨_ | ⟨m', earlier⟩, m'', later, hms, hm⟩
    · obtain ⟨rfl, rfl⟩ := List.cons.inj hms
      exact .inl hm
    · obtain ⟨rfl, rfl⟩ := List.cons.inj hms
      exact .inr ⟨earlier, m'', later, rfl, hm⟩
  · rintro (hm | ⟨earlier, m', later, rfl, hm⟩)
    · exact ⟨[], m, ms, rfl, hm⟩
    · exact ⟨m :: earlier, m', later, rfl, hm⟩

/-- **What marks let through**, if they come in the order of their lines: what is settled, the range
that is open as long as they leave it open, and what one of them lets through. -/
theorem contains_foldl (i : Ignores) {ms : List Mark}
    (hsorted : ms.Pairwise fun m m' => m.line ≤ m'.line) (n : Nat) :
    (ms.foldl take i).contains n = true ↔ i.Settled n ∨
      (∃ start, i.openFrom = some start ∧ start ≤ n ∧ StaysOpen ms n) ∨ LetThroughBy i ms n := by
  induction ms generalizing i with
  | nil => simp [contains_iff, StaysOpen, LetThroughBy]
  | cons m ms ih =>
    obtain ⟨hm, hsorted⟩ := List.pairwise_cons.1 hsorted
    -- The marks behind one that closes a range are on no earlier line.
    have hlater : n ≤ m.line ∧ StaysOpen ms n ↔ n ≤ m.line :=
      and_iff_left_of_imp fun hn e he _ => hn.trans (hm e he)
    have hstays : StaysOpen (m :: ms) n ↔
        (m.directive = .enable → n ≤ m.line) ∧ StaysOpen ms n := List.forall_mem_cons
    rw [List.foldl_cons, ih (i.take m) hsorted, letThroughBy_cons, settled_take, openFrom_take,
      hstays]
    cases hdirective : m.directive with
    | ignoreLine => simp [or_assoc, or_left_comm]
    | ignoreNextLine => simp [or_assoc, or_left_comm]
    | disable => cases hopen : i.openFrom <;> simp [or_assoc, or_left_comm]
    | enable => cases hopen : i.openFrom <;> simp [hlater, or_assoc, or_left_comm]

/-- **A line is let through if a mark lets it through.** -/
theorem contains_ofSource {s : List Char} {n : Nat} : (ofSource s).contains n = true ↔
    ∃ earlier m later, marks s = earlier ++ m :: later ∧ m.LetsThrough earlier later n := by
  have hsorted : (marks s).Pairwise fun m m' => m.line ≤ m'.line :=
    (pairwise_marksFrom 1 (Text.lines s)).imp fun h => h.elim Nat.le_of_lt fun h => Nat.le_of_eq h.1
  have hclosed : ∀ ms : List Mark, (ms.foldl take {}).openFrom = none ↔ Closed ms := fun ms => by
    simp [openFrom_foldl]
  rw [ofSource_eq_foldl, contains_foldl {} hsorted]
  -- Nothing is settled and no range is open before the first mark.
  simp only [Settled, List.not_mem_nil, false_and, exists_false, or_false, false_or, reduceCtorEq,
    LetThroughBy, hclosed]
  constructor
  · rintro ⟨earlier, m, later, hmarks, hm | ⟨hm, hearlier, hn, hlater⟩⟩
    · exact ⟨earlier, m, later, hmarks, .line hm⟩
    · exact ⟨earlier, m, later, hmarks, .range hm hearlier hn hlater⟩
  · rintro ⟨earlier, m, later, hmarks, hm⟩
    refine ⟨earlier, m, later, hmarks, ?_⟩
    cases hm with
    | line hm => exact .inl hm
    | range hm hearlier hn hlater => exact .inr ⟨hm, hearlier, hn, hlater⟩

end Ignores

/-! ### The places of marks in a tree -/

/-- What stands behind `lead` in the text of a tree stands in a leaf behind `inner`. -/
def StandsIn (t : Tree) (lead : List Char) (leaf : LeafKind × List Char) (inner : List Char) :
    Prop :=
  ∃ earlier later rest, t.leaves = earlier ++ leaf :: later ∧ leaf.2 = inner ++ rest ∧
    rest ≠ [] ∧ lead = earlier.flatMap (·.2) ++ inner

/-- **Where the mark of a directive may stand** in a tree, behind `lead`. -/
inductive MarkPlace (t : Tree) (lead : List Char) : Prop
  /-- It begins a comment. -/
  | comment {kind : Trivia} {text : List Char} : kind ≠ .blank →
      StandsIn t lead (.trivia kind, text) [] → MarkPlace t lead
  | withinComment {kind : Trivia} {text inner : List Char} : kind ≠ .blank → inner ≠ [] →
      StandsIn t lead (.trivia kind, text) inner → MarkPlace t lead
  /-- It stands in a comment without an end, which is no comment of the tree. -/
  | endlessComment {text inner : List Char} : beginsComment text = true →
      StandsIn t lead (.trivia .blank, text) inner → MarkPlace t lead
  /-- It stands in a lexeme that is no sign, as in a string, a template or a text of markup. -/
  | lexeme {kind : Lexeme} {text inner : List Char} : (∀ u ∈ Script.signs, u.toList ≠ text) →
      StandsIn t lead (.lexeme kind, text) inner → MarkPlace t lead

namespace Script

/-- A character of the text of leaves stands in one of them. -/
theorem exists_leaf_of_flatMap {ls : List (LeafKind × List Char)} {lead rest : List Char} {c : Char}
    (h : ls.flatMap (·.2) = lead ++ c :: rest) :
    ∃ earlier leaf later x y, ls = earlier ++ leaf :: later ∧ leaf.2 = x ++ c :: y ∧
      lead = earlier.flatMap (·.2) ++ x ∧ rest = y ++ later.flatMap (·.2) := by
  induction ls generalizing lead with
  | nil => simp at h
  | cons leaf ls ih =>
    rw [List.flatMap_cons] at h
    -- The first leaf ends before the character or at it, or holds it.
    rcases List.append_eq_append_iff.1 h with ⟨x, rfl, hrest⟩ | ⟨y, hleaf, hrest⟩
    · obtain ⟨earlier, leaf', later, x', y, rfl, hleaf', rfl, hy⟩ := ih hrest
      exact ⟨leaf :: earlier, leaf', later, x', y, rfl, hleaf', by simp, hy⟩
    · cases y with
      | nil =>
        have hnext : ls.flatMap (·.2) = [] ++ c :: rest := hrest.symm
        obtain ⟨earlier, leaf', later, x', y, rfl, hleaf', hlead, hy⟩ := ih hnext
        refine ⟨leaf :: earlier, leaf', later, x', y, rfl, hleaf', ?_, hy⟩
        rw [List.append_nil] at hleaf
        rw [List.flatMap_cons, hleaf, List.append_assoc, ← hlead, List.append_nil]
      | cons d y =>
        obtain ⟨rfl, rfl⟩ := List.cons.inj hrest
        exact ⟨[], leaf, ls, lead, y, rfl, hleaf, rfl, rfl⟩

/-- The signs that hold a slash. -/
theorem sign_of_slash {u : String} (hu : u ∈ signs) (hslash : '/' ∈ u.toList) :
    u.toList = ['/'] ∨ u.toList = ['/', '='] := by
  have hsigns : ∀ u ∈ signs, '/' ∈ u.toList → u.toList = ['/'] ∨ u.toList = ['/', '='] := by
    decide +kernel
  exact hsigns u hu hslash

/-- **What begins as a comment stands in a comment or a lexeme.** -/
theorem markPlace_of_beginsComment {t : Tree} (hmarks : Marks t.leaves [])
    {lead rest : List Char} (htext : t.text = lead ++ rest) (hrest : beginsComment rest = true) :
    MarkPlace t lead := by
  obtain ⟨c, rest, rfl, hc⟩ := beginsComment_iff.1 hrest
  obtain ⟨earlier, ⟨kind, text⟩, later, x, y, hleaves, rfl, hlead, hbehind⟩ :=
    exists_leaf_of_flatMap htext
  have hstands : StandsIn t lead (kind, x ++ '/' :: y) x :=
    ⟨earlier, later, '/' :: y, hleaves, rfl, List.cons_ne_nil _ _, hlead⟩
  have hleaf : LeafMarks (kind, x ++ '/' :: y) (later.flatMap (·.2)) := by
    rw [hleaves, marks_append, marks_cons, List.append_nil] at hmarks
    simpa using hmarks.2.1
  cases kind with
  | trivia kind =>
    by_cases hblank : kind = .blank
    · subst hblank
      exact .endlessComment (hleaf (by simp)) hstands
    · by_cases hx : x = []
      · subst hx
        exact .comment hblank hstands
      · exact .withinComment hblank hx hstands
  | lexeme kind =>
    refine .lexeme (fun u hu hsign => ?_) hstands
    rcases sign_of_slash hu (by simp [hsign]) with hu | hu
    · -- A slash of its own would begin a comment, with what is behind it.
      rw [hu] at hsign
      obtain ⟨rfl, rfl⟩ : x = [] ∧ y = [] := by
        cases x <;> simp_all
      have hnot := hleaf rfl
      rw [← List.nil_append (List.flatMap _ _), ← hbehind] at hnot
      exact Bool.false_ne_true (hnot.symm.trans hrest)
    · -- The character behind the slash is neither a slash nor a star.
      rw [hu] at hsign
      obtain ⟨rfl, rfl⟩ : x = [] ∧ y = ['='] := by
        cases x with
        | nil => simpa [eq_comm] using hsign
        | cons d x => cases x <;> simp_all
      obtain ⟨rfl, -⟩ := List.cons.inj hbehind
      rcases hc with hc | hc <;> cases hc

end Script

theorem beginsComment_of_directiveAt? {s : List Char} {d : Directive}
    (h : directiveAt? s = some d) : beginsComment s = true := by
  obtain ⟨name, hname, -⟩ := Option.bind_eq_some_iff.1 h
  obtain ⟨rest, hrest, -⟩ := Option.bind_eq_some_iff.1 hname
  unfold afterCommentMark? at hrest
  split at hrest
  · rfl
  · rfl
  · cases hrest

/-- What lets the lines of a script through: its marks, each at its place in the tree. -/
structure ActsByMarks (s : List Char) (t : Tree) : Prop where
  /-- The marks are all the places where a line has a directive. -/
  mem_marks : ∀ m, m ∈ marks s ↔ ∃ (l : Line s m.line) (x rest : List Char),
    l.content = x ++ rest ∧ x.length = m.column ∧ directiveAt? rest = some m.directive
  pairwise_marks : (marks s).Pairwise Mark.Before
  contains_iff : ∀ n, (Ignores.ofSource s).contains n = true ↔
    ∃ earlier m later, marks s = earlier ++ m :: later ∧ m.LetsThrough earlier later n
  /-- Each of these places is one of the tree. -/
  place : ∀ n (l : Line s n) (x rest : List Char) (d : Directive),
    l.content = x ++ rest → directiveAt? rest = some d → MarkPlace t (l.before ++ x)

/-- **Lines are let through by marks**, which stand in comments and in lexemes. -/
theorem actsByMarks_of_read {dialect : Dialect} {s : List Char} {t : Tree}
    (hmark : s.head? ≠ some '\ufeff') (hread : read dialect s = .ok t) : ActsByMarks s t := by
  refine ⟨fun m => mem_marks_iff, pairwise_marksFrom 1 (lines s),
    fun n => Ignores.contains_ofSource, fun n l x rest d hcontent hd => ?_⟩
  have htext : t.text = (l.before ++ x) ++ (rest ++ l.after) := by
    rw [Script.text_of_read hmark hread]
    exact l.text_eq.symm.trans (by simp [hcontent])
  have hbegins : beginsComment (rest ++ l.after) = true := by
    obtain ⟨c, more, rfl, hc⟩ := Script.beginsComment_iff.1 (beginsComment_of_directiveAt? hd)
    exact Script.beginsComment_iff.2 ⟨c, more ++ l.after, rfl, hc⟩
  exact Script.markPlace_of_beginsComment (Script.marks_of_parse (Script.parse_of_read hread)) htext
    hbegins

/-- A call whose line is let through, and another one. -/
def callWithMark : List Char :=
  "f('One'); // intl-lint-ignore-line\nf('Two');\n".toList

/-- The first line is let through by its comment. -/
theorem actsByMarks_callWithMark : callWithMark.head? ≠ some '\ufeff' ∧ ∃ t,
    read .markup callWithMark = .ok t ∧ ActsByMarks callWithMark t ∧
      marks callWithMark = [⟨1, 10, .ignoreLine⟩] ∧
      (Ignores.ofSource callWithMark).contains 1 = true ∧
      (Ignores.ofSource callWithMark).contains 2 = false := by
  have hmark : callWithMark.head? ≠ some '\ufeff' := by decide +kernel
  have hread : (read .markup callWithMark).toOption.isSome = true := by decide +kernel
  obtain ⟨t, ht⟩ := Option.isSome_iff_exists.1 hread
  have ht := eq_ok_of_toOption ht
  exact ⟨hmark, t, ht, actsByMarks_of_read hmark ht, by decide +kernel, by decide +kernel,
    by decide +kernel⟩

/-- A string that holds what a comment would say, and a text of markup behind it. -/
def quotedMark : List Char :=
  "const a = \"// intl-lint-disable\";\n<p>Hello</p>".toList

/-- **A string lets lines through**: there is no comment in the script. -/
theorem contains_quotedMark : quotedMark.head? ≠ some '\ufeff' ∧ ∃ t,
    read .markup quotedMark = .ok t ∧ (Ignores.ofSource quotedMark).contains 2 = true ∧
      marks quotedMark = [⟨1, 11, .disable⟩] ∧
      (.lexeme .string, "\"// intl-lint-disable\"".toList) ∈ t.leaves ∧
      ∀ leaf ∈ t.leaves, leaf.1 ≠ .trivia .lineComment ∧ leaf.1 ≠ .trivia .blockComment := by
  have hread : (read .markup quotedMark).toOption.map (fun t =>
      (decide ((.lexeme .string, "\"// intl-lint-disable\"".toList) ∈ t.leaves),
        t.leaves.all fun leaf =>
          leaf.1 ≠ .trivia .lineComment && leaf.1 ≠ .trivia .blockComment)) =
      some (true, true) := by decide +kernel
  obtain ⟨t, ht, hleaves⟩ := Option.map_eq_some_iff.1 hread
  obtain ⟨hstring, hcomments⟩ := Prod.mk.inj hleaves
  refine ⟨by decide +kernel, t, eq_ok_of_toOption ht, by decide +kernel, by decide +kernel,
    of_decide_eq_true hstring, fun leaf hleaf => ?_⟩
  simpa using List.all_eq_true.1 hcomments leaf hleaf

end Untranslated
