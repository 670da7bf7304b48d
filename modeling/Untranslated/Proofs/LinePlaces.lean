import Untranslated.Proofs.Lines

/-!
# Lines in their places

A line of a text is a stretch of it: it begins at the head of the text or after a newline, and
its content goes on to the end of the text or to a newline, without the carriage return that may
stand before it. These stretches are the lines of the text (`getElem?_lines_iff`), and a line that
gets another content leaves the others as they are (`Line.exists_lines`).

* `Line`: a line of a text with what stands on both sides of its content.
* `Line.extended`: the text with more at the end of the content.
-/

namespace Untranslated.Text

/-- What may follow the content of a line: nothing, if there is any content, or a newline, perhaps
after a carriage return. A carriage return before a newline is no content. -/
inductive LineEnd (content : List Char) : List Char → Prop
  | endOfText : content ≠ [] → LineEnd content []
  | newline (rest : List Char) : content.getLast? ≠ some '\r' → LineEnd content ('\n' :: rest)
  | returnNewline (rest : List Char) : LineEnd content ('\r' :: '\n' :: rest)

/-- The line `n` of a text, counted from 1, with what stands before and after its content. -/
structure Line (s : List Char) (n : Nat) where
  before : List Char
  content : List Char
  after : List Char
  text_eq : before ++ (content ++ after) = s
  begins : before = [] ∨ before.getLast? = some '\n'
  number_eq : before.count '\n' + 1 = n
  newline_notMem : '\n' ∉ content
  ends : LineEnd content after

/-! ### Reading a line -/

/-- **A content before an end of line is the first line**, and the other lines depend on that end
only. -/
theorem LineEnd.exists_lines {content after : List Char} (h : LineEnd content after) :
    ∃ more : List (List Char), ∀ content', '\n' ∉ content' → LineEnd content' after →
      lines (content' ++ after) = content' :: more := by
  cases h with
  | endOfText =>
    refine ⟨[], fun content' hcontent hends => ?_⟩
    cases hends with
    | endOfText hne =>
      rw [List.append_nil, lines, splitLines_of_notMem hcontent, linesOf]
      simp [hne]
  | newline rest =>
    refine ⟨lines rest, fun content' hcontent hends => ?_⟩
    cases hends with
    | newline _ hreturn =>
      rw [lines_append_newline, splitLines_of_notMem hcontent, List.map_singleton,
        dropReturn_eq_self hreturn, List.singleton_append]
  | returnNewline rest =>
    refine ⟨lines rest, fun content' hcontent _ => ?_⟩
    have hnotMem : '\n' ∉ content' ++ ['\r'] := by simp [hcontent]
    have hdrop : dropReturn (content' ++ ['\r']) = content' := by
      rw [dropReturn_append content' (by simp), dropReturn, List.append_nil]
    have hsplit : content' ++ '\r' :: '\n' :: rest = (content' ++ ['\r']) ++ '\n' :: rest := by
      simp
    rw [hsplit, lines_append_newline, splitLines_of_notMem hnotMem, List.map_singleton, hdrop,
      List.singleton_append]

/-- A text that ends its last line has as many lines as newlines. -/
theorem length_lines {s : List Char} (h : s = [] ∨ s.getLast? = some '\n') :
    (lines s).length = s.count '\n' := by
  rcases h with rfl | h
  · rfl
  · obtain ⟨r, rfl⟩ := List.getLast?_eq_some_iff.1 h
    have hnil : lines [] = [] := rfl
    rw [lines_append_newline, hnil, List.append_nil, List.length_map, length_splitLines,
      List.count_append, List.count_singleton_self]

/-- The end of a line can come after more content, if that has no carriage return at its end. -/
theorem LineEnd.extend {content after mark : List Char} (h : LineEnd content after)
    (hne : mark ≠ []) (hreturn : mark.getLast? ≠ some '\r') : LineEnd (content ++ mark) after := by
  cases h with
  | endOfText => exact .endOfText (by simp [hne])
  | newline rest =>
    refine .newline rest ?_
    rwa [List.getLast?_append_of_ne_nil _ hne]
  | returnNewline rest => exact .returnNewline rest

namespace Line

variable {s : List Char} {n : Nat}

/-- The text with more at the end of the line's content. -/
def extended (l : Line s n) (mark : List Char) : List Char :=
  l.before ++ (l.content ++ mark ++ l.after)

/-- **The lines of a text and of the text with more at the end of one line** are the same but for
that line. -/
theorem exists_lines (l : Line s n) : ∃ earlier later : List (List Char),
    earlier.length + 1 = n ∧ lines s = earlier ++ l.content :: later ∧
      ∀ mark, mark ≠ [] → '\n' ∉ mark → mark.getLast? ≠ some '\r' →
        lines (l.extended mark) = earlier ++ (l.content ++ mark) :: later := by
  obtain ⟨later, hlater⟩ := l.ends.exists_lines
  refine ⟨lines l.before, later, ?_, ?_, fun mark hne hnewline hreturn => ?_⟩
  · rw [length_lines l.begins, l.number_eq]
  · conv_lhs => rw [← l.text_eq]
    rw [lines_append l.begins, hlater l.content l.newline_notMem l.ends]
  · have hnotMem : '\n' ∉ l.content ++ mark := by simp [l.newline_notMem, hnewline]
    rw [extended, lines_append l.begins, hlater _ hnotMem (l.ends.extend hne hreturn)]

/-- What stands at the head of a text, up to its first newline, is its first line. -/
theorem exists_first (s : List Char) {line : List Char} (h : (lines s)[0]? = some line) :
    ∃ l : Line s 1, l.content = line := by
  by_cases hnewline : '\n' ∈ s
  · obtain ⟨piece, rest, rfl, hpiece⟩ := List.eq_append_cons_of_mem hnewline
    rw [lines_append_newline, splitLines_of_notMem hpiece, List.map_singleton,
      List.singleton_append, List.getElem?_cons_zero] at h
    obtain rfl := Option.some.inj h
    by_cases hreturn : piece.getLast? = some '\r'
    · obtain ⟨content, rfl⟩ := List.getLast?_eq_some_iff.1 hreturn
      have hdrop : dropReturn (content ++ ['\r']) = content := by
        rw [dropReturn_append content (by simp), dropReturn, List.append_nil]
      rw [hdrop]
      exact ⟨⟨[], content, '\r' :: '\n' :: rest, by simp, .inl rfl, rfl,
        fun hmem => hpiece (List.mem_append_left _ hmem), .returnNewline rest⟩, rfl⟩
    · rw [dropReturn_eq_self hreturn]
      exact ⟨⟨[], piece, '\n' :: rest, rfl, .inl rfl, rfl, hpiece, .newline rest hreturn⟩, rfl⟩
  · rw [lines, splitLines_of_notMem hnewline, linesOf] at h
    by_cases hne : s = []
    · subst hne
      cases h
    · rw [if_neg (by simpa using hne), List.getElem?_cons_zero] at h
      obtain rfl := Option.some.inj h
      exact ⟨⟨[], s, [], by simp, .inl rfl, rfl, hnewline, .endOfText hne⟩, rfl⟩

/-- Each line stands somewhere. -/
theorem exists_of_getElem? {k : Nat} {line : List Char} (h : (lines s)[k]? = some line) :
    ∃ l : Line s (k + 1), l.content = line := by
  induction k generalizing s with
  | zero => exact exists_first s h
  | succ k ih =>
    by_cases hnewline : '\n' ∈ s
    · obtain ⟨piece, rest, rfl, hpiece⟩ := List.eq_append_cons_of_mem hnewline
      rw [lines_append_newline, splitLines_of_notMem hpiece, List.map_singleton,
        List.singleton_append, List.getElem?_cons_succ] at h
      obtain ⟨l, rfl⟩ := ih h
      have hcount : piece.count '\n' = 0 := List.count_eq_zero.2 hpiece
      refine ⟨⟨piece ++ '\n' :: l.before, l.content, l.after, by simp [l.text_eq], .inr ?_, ?_,
        l.newline_notMem, l.ends⟩, rfl⟩
      · rcases l.begins with hnil | hlast
        · simp [hnil]
        · rw [List.getLast?_append_of_ne_nil _ (List.cons_ne_nil _ _), List.getLast?_cons, hlast]
          rfl
      · have hnumber := l.number_eq
        rw [List.count_append, hcount, List.count_cons_self]
        omega
    · rw [lines, splitLines_of_notMem hnewline, linesOf] at h
      split_ifs at h <;> simp at h

end Line

/-- **The lines of a text are the stretches that are lines.** -/
theorem getElem?_lines_iff {s line : List Char} {k : Nat} :
    (lines s)[k]? = some line ↔ ∃ l : Line s (k + 1), l.content = line := by
  constructor
  · exact Line.exists_of_getElem?
  · rintro ⟨l, rfl⟩
    obtain ⟨earlier, later, hlength, hlines, -⟩ := l.exists_lines
    rw [hlines, List.getElem?_append_right (by omega), show k - earlier.length = 0 by omega]
    rfl

end Untranslated.Text
