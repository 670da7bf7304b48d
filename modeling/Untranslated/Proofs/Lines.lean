import Mathlib.Data.List.Basic
import Untranslated.Text.Lines

/-!
# Lines of texts put together

* `splitLines_append_newline`: the pieces of a text around a newline.
* `splitLines_flatMap`: the pieces of a text made from parts.
* `lines_append`: a text that ends its last line can be read apart from what follows.
* `lines_unlines`: lines written with a newline after each are read back, without the carriage
  return some may end in.
-/

namespace Untranslated.Text

theorem splitLines_ne_nil (s : List Char) : splitLines s ≠ [] := by
  cases s with
  | nil => simp [splitLines]
  | cons c s =>
    unfold splitLines
    split <;> simp_all
    split <;> simp

theorem splitLines_newline (s : List Char) : splitLines ('\n' :: s) = [] :: splitLines s := rfl

theorem splitLines_cons {c : Char} (hc : c ≠ '\n') {s line : List Char} {more : List (List Char)}
    (h : splitLines s = line :: more) : splitLines (c :: s) = (c :: line) :: more := by
  rw [splitLines]
  · rw [h]
  · exact hc

/-- The pieces of a text around a newline are those before and those after it. -/
theorem splitLines_append_newline (s t : List Char) :
    splitLines (s ++ '\n' :: t) = splitLines s ++ splitLines t := by
  induction s with
  | nil => rfl
  | cons c s ih =>
    by_cases hc : c = '\n'
    · subst hc
      rw [List.cons_append, splitLines_newline, splitLines_newline, ih, List.cons_append]
    · obtain ⟨line, more, hs⟩ := List.exists_cons_of_ne_nil (splitLines_ne_nil s)
      rw [hs, List.cons_append] at ih
      rw [List.cons_append, splitLines_cons hc ih, splitLines_cons hc hs, List.cons_append]

/-- A text before the first newline stands at the head of the first piece. -/
theorem splitLines_append_of_notMem {s : List Char} (h : '\n' ∉ s) {t line : List Char}
    {more : List (List Char)} (ht : splitLines t = line :: more) :
    splitLines (s ++ t) = (s ++ line) :: more := by
  induction s with
  | nil => exact ht
  | cons c s ih =>
    simp only [List.mem_cons, not_or] at h
    exact splitLines_cons (Ne.symm h.1) (ih h.2)

theorem splitLines_of_notMem {s : List Char} (h : '\n' ∉ s) : splitLines s = [s] := by
  have hs := splitLines_append_of_notMem h (t := []) rfl
  rw [List.append_nil] at hs
  exact hs

theorem length_splitLines (s : List Char) : (splitLines s).length = s.count '\n' + 1 := by
  induction s with
  | nil => rfl
  | cons c s ih =>
    by_cases hc : c = '\n'
    · rw [hc, splitLines_newline, List.length_cons, ih, List.count_cons_self]
    · obtain ⟨line, more, hs⟩ := List.exists_cons_of_ne_nil (splitLines_ne_nil s)
      rw [hs] at ih
      rw [splitLines_cons hc hs, List.count_cons_of_ne hc, ← ih]
      rfl

/-- A text made from parts, where some parts are a newline and the others hold none, has the
lines that are made from the parts between newlines. -/
theorem splitLines_flatMap {α : Type} {ends : α → Bool} {f : α → List Char} {xs : List α}
    (hends : ∀ x ∈ xs, ends x = true → f x = ['\n'])
    (hothers : ∀ x ∈ xs, ends x = false → '\n' ∉ f x) :
    splitLines (xs.flatMap f) = (xs.splitOnP ends).map (·.flatMap f) := by
  induction xs with
  | nil => rfl
  | cons x xs ih =>
    have ih := ih (fun y hy => hends y (List.mem_cons_of_mem x hy))
      (fun y hy => hothers y (List.mem_cons_of_mem x hy))
    rw [List.flatMap_cons, List.splitOnP_cons_eq_if_modifyHead]
    cases hx : ends x with
    | true =>
      rw [hends x List.mem_cons_self hx, List.singleton_append, splitLines_newline, ih]
      rfl
    | false =>
      obtain ⟨piece, pieces, hxs⟩ := List.exists_cons_of_ne_nil (List.splitOnP_ne_nil ends xs)
      rw [hxs, List.map_cons] at ih
      rw [splitLines_append_of_notMem (hothers x List.mem_cons_self hx) ih, hxs]
      rfl

theorem linesOf_append (pieces : List (List Char)) {more : List (List Char)} (h : more ≠ []) :
    linesOf (pieces ++ more) = pieces.map dropReturn ++ linesOf more := by
  induction pieces with
  | nil => rfl
  | cons piece pieces ih =>
    rw [List.cons_append, linesOf, ih, List.map_cons, List.cons_append]
    simp [h]

/-- What comes before a newline and what comes after it are read apart. -/
theorem lines_append_newline (s t : List Char) :
    lines (s ++ '\n' :: t) = (splitLines s).map dropReturn ++ lines t := by
  unfold lines
  rw [splitLines_append_newline, linesOf_append _ (splitLines_ne_nil t)]

/-- **A text that ends its last line is read apart from what follows.** -/
theorem lines_append {s : List Char} (h : s = [] ∨ s.getLast? = some '\n') (t : List Char) :
    lines (s ++ t) = lines s ++ lines t := by
  rcases h with rfl | h
  · rfl
  · obtain ⟨r, rfl⟩ := List.getLast?_eq_some_iff.1 h
    have hnil : lines [] = [] := rfl
    rw [List.append_assoc, List.singleton_append, lines_append_newline, lines_append_newline, hnil,
      List.append_nil]

/-- Lines as a text, each with a newline after it. -/
def unlines (ls : List (List Char)) : List Char :=
  ls.flatMap (· ++ ['\n'])

theorem unlines_cons (l : List Char) (ls : List (List Char)) :
    unlines (l :: ls) = l ++ '\n' :: unlines ls := by
  simp [unlines]

theorem unlines_append (ls ls' : List (List Char)) :
    unlines (ls ++ ls') = unlines ls ++ unlines ls' :=
  List.flatMap_append

/-- Groups of lines with a blank line between them. -/
theorem unlines_intercalate (groups : List (List (List Char))) :
    unlines ([[]].intercalate groups) = ['\n'].intercalate (groups.map unlines) := by
  induction groups with
  | nil => rfl
  | cons g groups ih =>
    cases groups with
    | nil => simp
    | cons g' groups =>
      rw [List.intercalate_cons_cons, unlines_append, unlines_append, ih, List.map_cons,
        List.map_cons, List.map_cons, List.intercalate_cons_cons]
      rfl

/-- The pieces of such a text are the lines and what comes after the last newline. -/
theorem splitLines_unlines {ls : List (List Char)} (h : ∀ l ∈ ls, '\n' ∉ l) :
    splitLines (unlines ls) = ls ++ [[]] := by
  induction ls with
  | nil => rfl
  | cons l ls ih =>
    have hls := ih fun m hm => h m (List.mem_cons_of_mem _ hm)
    rw [unlines_cons, splitLines_append_newline, splitLines_of_notMem (h l List.mem_cons_self), hls]
    rfl

/-- Lines written with a newline after each are read back. -/
theorem lines_unlines {ls : List (List Char)} (h : ∀ l ∈ ls, '\n' ∉ l) :
    lines (unlines ls) = ls.map dropReturn := by
  rw [lines, splitLines_unlines h, linesOf_append ls (List.cons_ne_nil [] [])]
  exact List.append_nil _

/-- Digits stay on a line. -/
theorem newline_notMem_toDigits (n : Nat) : '\n' ∉ Nat.toDigits 10 n :=
  fun h => absurd (Nat.isDigit_of_mem_toDigits (by omega) (by omega) h) (by decide)

/-! ### Carriage returns -/

/-- A carriage return is taken off the end of a text only. -/
theorem dropReturn_append (s : List Char) {t : List Char} (h : t ≠ []) :
    dropReturn (s ++ t) = s ++ dropReturn t := by
  induction s with
  | nil => rfl
  | cons c s ih =>
    rw [List.cons_append, dropReturn, ih, List.cons_append]
    simp [h]

theorem dropReturn_cons (c : Char) {s : List Char} (hc : c ≠ '\r') :
    dropReturn (c :: s) = c :: dropReturn s := by
  rw [dropReturn]
  simp [hc]

/-- A text that does not end in a carriage return stays. -/
theorem dropReturn_eq_self {s : List Char} (h : s.getLast? ≠ some '\r') : dropReturn s = s := by
  rcases List.eq_nil_or_concat s with rfl | ⟨r, c, rfl⟩
  · rfl
  · have hc : c ≠ '\r' := by
      rintro rfl
      simp at h
    rw [List.concat_eq_append, dropReturn_append r (by simp), dropReturn_cons c hc]
    rfl

theorem dropReturn_isPrefix (s : List Char) : dropReturn s <+: s := by
  by_cases h : s.getLast? = some '\r'
  · obtain ⟨r, rfl⟩ := List.getLast?_eq_some_iff.1 h
    rw [dropReturn_append r (by simp)]
    exact ⟨['\r'], by simp [dropReturn]⟩
  · exact ⟨[], by rw [List.append_nil, dropReturn_eq_self h]⟩

/-- A text that ends in no carriage return and holds no newline stands at the head of the first
line of every text that begins with it. -/
theorem exists_lines_of_isPrefix {s t : List Char} (hne : s ≠ []) (hnewline : '\n' ∉ s)
    (hreturn : s.getLast? ≠ some '\r') (h : s <+: t) :
    ∃ line more, lines t = line :: more ∧ s <+: line := by
  obtain ⟨r, rfl⟩ := h
  obtain ⟨line, more, hr⟩ := List.exists_cons_of_ne_nil (splitLines_ne_nil r)
  unfold lines
  rw [splitLines_append_of_notMem hnewline hr]
  cases more with
  | nil =>
    refine ⟨s ++ line, [], ?_, List.prefix_append s line⟩
    simp [linesOf, hne]
  | cons piece more =>
    refine ⟨dropReturn (s ++ line), linesOf (piece :: more), by simp [linesOf], ?_⟩
    by_cases hline : line = []
    · subst hline
      exact ⟨[], by rw [List.append_nil, dropReturn_eq_self hreturn]⟩
    · rw [dropReturn_append s hline]
      exact List.prefix_append s _

end Untranslated.Text
