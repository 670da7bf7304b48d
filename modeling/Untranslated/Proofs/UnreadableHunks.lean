import Untranslated.Proofs.GitDiff

/-!
# Hunks that cannot be read

A well-formed diff with a hunk more whose header cannot be read. Such a header says nothing of how
many lines follow, so the lines of its body are read as lines outside of hunks. No line of the body
is recorded and no hunk after it is counted otherwise, but a line of the body that begins with three
plus signs and a blank is taken for the name of the file.

* `pass_strayLine`: what one line of such a body does to a cursor.
* `passAll_unreadable`: what the whole hunk does: all that can change is the file at the cursor.
* `changedLines_unreadable`: **what a diff with such a hunk adds**. If no line of the body looks
  like a name, that is what it adds without the hunk.
-/

namespace Untranslated.GitDiff

open Text (unlines dropReturn)

/-- A hunk with a header that cannot be read. -/
structure UnreadableHunk where
  header : List Char
  /-- The lines after the header, each with its sign. -/
  body : List (List Char) := []
  header_marks : "@@".toList <+: header
  header_unreadable : hunkHeader? (dropReturn header) = none
  header_line : '\n' ∉ header
  body_sign : ∀ l ∈ body, ∃ sign ∈ ['+', '-', ' ', '\\'], l.head? = some sign
  body_line : ∀ l ∈ body, '\n' ∉ l

namespace UnreadableHunk

/-- The lines of the hunk. -/
def lines (u : UnreadableHunk) : List (List Char) :=
  u.header :: u.body

/-- The file that a line outside of hunks names, or else the file that is known before it. -/
def fileAfterLine (cwd : List Char) (file : Option (List Char)) (line : List Char) :
    Option (List Char) :=
  (after? "+++ " (dropReturn line)).elim file fun rest =>
    (markedTarget? rest).map (Path.normalize cwd)

/-- The file that is known after the hunk. -/
def fileAfter (u : UnreadableHunk) (cwd : List Char) (file : Option (List Char)) :
    Option (List Char) :=
  u.body.foldl (fileAfterLine cwd) file

/-- A body without lines that look like names leaves the file. -/
theorem fileAfter_eq_self {u : UnreadableHunk} (h : ∀ l ∈ u.body, ¬ "+++ ".toList <+: l)
    (cwd : List Char) (file : Option (List Char)) : u.fileAfter cwd file = file := by
  unfold fileAfter
  generalize u.body = body at h
  induction body with
  | nil => rfl
  | cons l body ih =>
    obtain ⟨hl, hbody⟩ := List.forall_mem_cons.1 h
    have hline : ¬ "+++ ".toList <+: dropReturn l := by
      intro hname
      exact hl (hname.trans (Text.dropReturn_isPrefix l))
    have hafter : fileAfterLine cwd file l = file := by
      rw [fileAfterLine, after?_eq_none_iff.2 hline]
      rfl
    rw [List.foldl_cons, hafter]
    exact ih hbody

end UnreadableHunk

open UnreadableHunk (fileAfterLine)

/-! ### Passing the hunk -/

section Passing

variable (cwd : List Char) (file : Option (List Char)) (n : Nat)

/-- Outside of hunks a line marks its file only as the header of a hunk. -/
theorem mark?_outside {line : List Char} (h : hunkHeader? line = none) :
    (⟨file, n, 0, 0⟩ : DiffCursor).mark? line = none := by
  have hline : (⟨file, n, 0, 0⟩ : DiffCursor).hunkLine? line = none := rfl
  unfold DiffCursor.mark?
  rw [hline, h]
  cases file <;> rfl

/-- A header that cannot be read says nothing. -/
theorem pass_unreadableHeader (u : UnreadableHunk) :
    (⟨file, n, 0, 0⟩ : DiffCursor).mark? (dropReturn u.header) = none ∧
      (⟨file, n, 0, 0⟩ : DiffCursor).pass cwd (dropReturn u.header) = ⟨file, n, 0, 0⟩ := by
  obtain ⟨rest, hrest⟩ := u.header_marks
  have hheader : dropReturn u.header = "@@".toList ++ dropReturn rest := by
    rw [← hrest]
    rfl
  have hunreadable := u.header_unreadable
  have hmarks : after? "@@" (dropReturn u.header) = some (dropReturn rest) :=
    after?_eq_some_iff.2 hheader
  have hsection : after? "diff --git " (dropReturn u.header) = none := by
    rw [hheader]
    rfl
  have hname : after? "+++ " (dropReturn u.header) = none := by
    rw [hheader]
    rfl
  have hline : (⟨file, n, 0, 0⟩ : DiffCursor).hunkLine? (dropReturn u.header) = none := rfl
  refine ⟨mark?_outside file n hunreadable, ?_⟩
  unfold DiffCursor.pass DiffCursor.passHeader
  rw [hline, hsection, hname, hmarks, hunreadable]
  rfl

/-- **A line of the body is at most taken for a name.** -/
theorem pass_strayLine {line : List Char}
    (h : ∃ sign ∈ ['+', '-', ' ', '\\'], line.head? = some sign) :
    (⟨file, n, 0, 0⟩ : DiffCursor).mark? (dropReturn line) = none ∧
      (⟨file, n, 0, 0⟩ : DiffCursor).pass cwd (dropReturn line) =
        ⟨fileAfterLine cwd file line, n, 0, 0⟩ := by
  obtain ⟨sign, hsign, hhead⟩ := h
  obtain ⟨text, rfl⟩ := List.head?_eq_some_iff.1 hhead
  have hreturn : sign ≠ '\r' := by
    rintro rfl
    simp at hsign
  have hline : dropReturn (sign :: text) = sign :: dropReturn text :=
    Text.dropReturn_cons _ hreturn
  -- No sign begins a header of a hunk or of a section, so only a name is left.
  have hmarks : after? "@@" (sign :: dropReturn text) = none := by
    rw [after?_eq_none_iff]
    rintro ⟨rest, hrest⟩
    obtain rfl : '@' = sign := (List.cons.inj hrest).1
    simp at hsign
  have hsection : after? "diff --git " (sign :: dropReturn text) = none := by
    rw [after?_eq_none_iff]
    rintro ⟨rest, hrest⟩
    obtain rfl : 'd' = sign := (List.cons.inj hrest).1
    simp at hsign
  have hheader : hunkHeader? (sign :: dropReturn text) = none := by
    cases hheader : hunkHeader? (sign :: dropReturn text) with
    | none => rfl
    | some header => exact absurd (prefix_of_hunkHeader? hheader) (after?_eq_none_iff.1 hmarks)
  have hhunk : (⟨file, n, 0, 0⟩ : DiffCursor).hunkLine? (sign :: dropReturn text) = none := rfl
  rw [fileAfterLine, hline]
  refine ⟨mark?_outside file n hheader, ?_⟩
  unfold DiffCursor.pass DiffCursor.passHeader
  rw [hhunk, hsection, hmarks]
  cases after? "+++ " (sign :: dropReturn text) <;> rfl

/-- Lines of a body in a row mark nothing. -/
theorem passAll_strayLines {body : List (List Char)}
    (h : ∀ l ∈ body, ∃ sign ∈ ['+', '-', ' ', '\\'], l.head? = some sign) :
    (⟨file, n, 0, 0⟩ : DiffCursor).marks cwd (body.map dropReturn) = [] ∧
      (body.map dropReturn).foldl (DiffCursor.pass cwd) ⟨file, n, 0, 0⟩ =
        ⟨body.foldl (fileAfterLine cwd) file, n, 0, 0⟩ := by
  induction body generalizing file with
  | nil => exact ⟨rfl, rfl⟩
  | cons l body ih =>
    obtain ⟨hl, hrest⟩ := List.forall_mem_cons.1 h
    obtain ⟨hmark, hpass⟩ := pass_strayLine cwd file n hl
    rw [List.map_cons, DiffCursor.marks, List.foldl_cons, List.foldl_cons, hmark, hpass]
    exact ih _ hrest

/-- **The whole hunk marks nothing**, and after it the cursor is where it was, at the file that is
known then. -/
theorem passAll_unreadable (u : UnreadableHunk) :
    (⟨file, n, 0, 0⟩ : DiffCursor).marks cwd (u.lines.map dropReturn) = [] ∧
      (u.lines.map dropReturn).foldl (DiffCursor.pass cwd) ⟨file, n, 0, 0⟩ =
        ⟨u.fileAfter cwd file, n, 0, 0⟩ := by
  obtain ⟨hmark, hpass⟩ := pass_unreadableHeader cwd file n u
  rw [UnreadableHunk.lines, List.map_cons, DiffCursor.marks, List.foldl_cons, hmark, hpass]
  exact passAll_strayLines cwd file n u.body_sign

end Passing

/-! ### Diffs with such a hunk -/

namespace FileSection

variable (s : FileSection) (n : Nat) (u : UnreadableHunk)

/-- The lines of a section with an unreadable hunk after the first `n` hunks. -/
def linesWith : List (List Char) :=
  s.head ++ ((s.hunks.take n).flatMap Hunk.lines ++
    (u.lines ++ (s.hunks.drop n).flatMap Hunk.lines))

/-- The path of the file after the change, if it is not deleted. -/
def path? (cwd : List Char) : Option (List Char) :=
  s.name?.map (Path.normalize cwd)

/-- **The hunks before the unreadable one are read as they are without it, those after it as hunks
of the file that is known then.** -/
theorem marks_linesWith (cwd : List Char) (c : DiffCursor) :
    c.marks cwd ((s.linesWith n u).map dropReturn) = hunkMarks (s.path? cwd) (s.hunks.take n) ++
      hunkMarks (u.fileAfter cwd (s.path? cwd)) (s.hunks.drop n) := by
  obtain ⟨hhead, file, hpass, hfile⟩ := passAll_head cwd c s
  obtain ⟨hfirst, k, hpass'⟩ := @passAll_hunks cwd ⟨file, 0, 0, 0⟩ rfl (s.hunks.take n)
  obtain ⟨hskip, hpass''⟩ := passAll_unreadable cwd file k u
  have hlast := (@passAll_hunks cwd ⟨u.fileAfter cwd file, k, 0, 0⟩ rfl (s.hunks.drop n)).1
  rw [linesWith, List.map_append, DiffCursor.marks_append, hhead, hpass, List.nil_append,
    List.map_append, DiffCursor.marks_append, hfirst, hpass', List.map_append,
    DiffCursor.marks_append, hskip, hpass'', List.nil_append, hlast]
  by_cases hhunks : s.hunks = []
  · rw [hhunks]
    simp [hunkMarks]
  · rw [hfile hhunks]
    rfl

end FileSection

/-- The text of a diff with an unreadable hunk after the first `n` hunks of the section `s`. -/
def renderWith (before : List FileSection) (s : FileSection) (n : Nat) (u : UnreadableHunk)
    (after : List FileSection) : List Char :=
  unlines (before.flatMap FileSection.lines ++ (s.linesWith n u ++ after.flatMap FileSection.lines))

section Rendered

variable (cwd : List Char) (before : List FileSection) (s : FileSection) (n : Nat)
  (u : UnreadableHunk) (after : List FileSection)

theorem newline_notMem_linesWith : ∀ l ∈ s.linesWith n u, '\n' ∉ l := by
  have hsection := newline_notMem_section s
  rw [s.lines_eq] at hsection
  obtain ⟨hhead, hhunks⟩ := List.forall_mem_append.1 hsection
  have hsome : ∀ hunks : List Hunk, ∀ l ∈ hunks.flatMap Hunk.lines, '\n' ∉ l := by
    intro hunks l hl
    obtain ⟨h, -, hl⟩ := List.mem_flatMap.1 hl
    exact newline_notMem_hunk h l hl
  have hskipped : ∀ l ∈ u.lines, '\n' ∉ l := List.forall_mem_cons.2 ⟨u.header_line, u.body_line⟩
  unfold FileSection.linesWith
  refine List.forall_mem_append.2 ⟨hhead, List.forall_mem_append.2 ⟨hsome _, ?_⟩⟩
  exact List.forall_mem_append.2 ⟨hskipped, hsome _⟩

/-- The marks of a diff with an unreadable hunk. -/
theorem diffMarks_renderWith : diffMarks cwd (renderWith before s n u after) =
    before.flatMap (FileSection.marks cwd) ++ (hunkMarks (s.path? cwd) (s.hunks.take n) ++
      hunkMarks (u.fileAfter cwd (s.path? cwd)) (s.hunks.drop n) ++
      after.flatMap (FileSection.marks cwd)) := by
  have hlines : ∀ sections : List FileSection, ∀ l ∈ sections.flatMap FileSection.lines,
      '\n' ∉ l := by
    intro sections l hl
    obtain ⟨t, -, hl⟩ := List.mem_flatMap.1 hl
    exact newline_notMem_section t l hl
  have hwith := newline_notMem_linesWith s n u
  unfold diffMarks renderWith
  rw [Text.lines_unlines, List.map_append, DiffCursor.marks_append, marks_sections,
    List.map_append, DiffCursor.marks_append, FileSection.marks_linesWith, marks_sections]
  exact List.forall_mem_append.2 ⟨hlines _, List.forall_mem_append.2 ⟨hwith, hlines _⟩⟩

/-- What the marks of such a diff say of a path. -/
theorem mem_diffMarks_renderWith {q : List Char} {k : Option Nat} :
    (q, k) ∈ diffMarks cwd (renderWith before s n u after) ↔
      (∃ t ∈ before ++ after, t.path? cwd = some q ∧ ∃ h ∈ t.hunks, ∀ i ∈ k, h.Adds i) ∨
        (s.path? cwd = some q ∧ ∃ h ∈ s.hunks.take n, ∀ i ∈ k, h.Adds i) ∨
        u.fileAfter cwd (s.path? cwd) = some q ∧ ∃ h ∈ s.hunks.drop n, ∀ i ∈ k, h.Adds i := by
  have hsections : ∀ sections : List FileSection,
      (q, k) ∈ sections.flatMap (FileSection.marks cwd) ↔
        ∃ t ∈ sections, t.path? cwd = some q ∧ ∃ h ∈ t.hunks, ∀ i ∈ k, h.Adds i := by
    intro sections
    simp only [List.mem_flatMap, mem_marks_iff, FileSection.path?]
  rw [diffMarks_renderWith]
  simp only [List.mem_append, hsections, mem_hunkMarks, or_and_right, exists_or, or_assoc]
  -- What the later sections add stands at the end of the marks.
  refine or_congr_right ?_
  rw [← or_assoc, or_comm]

/-- If the file is the same after an unreadable hunk, or no hunk comes after it, the marks are those
of the diff without it. -/
theorem diffMarks_renderWith_eq
    (h : u.fileAfter cwd (s.path? cwd) = s.path? cwd ∨ s.hunks.drop n = []) :
    diffMarks cwd (renderWith before s n u after) =
      diffMarks cwd (render (before ++ s :: after)) := by
  have hlast : hunkMarks (u.fileAfter cwd (s.path? cwd)) (s.hunks.drop n) =
      hunkMarks (s.path? cwd) (s.hunks.drop n) := by
    rcases h with h | h
    · rw [h]
    · rw [h]
      rfl
  have hsection : hunkMarks (s.path? cwd) (s.hunks.take n) ++
      hunkMarks (s.path? cwd) (s.hunks.drop n) = s.marks cwd := by
    unfold hunkMarks
    rw [← List.flatMap_append, List.take_append_drop]
    rfl
  rw [diffMarks_renderWith, diffMarks_render, hlast, hsection, List.flatMap_append,
    List.flatMap_cons]

/-- **What a diff with an unreadable hunk adds.** The sections around it are read as ever. Of its
own section the hunks before it are counted for the file of the section, and those after it for the
file that is known then. So nothing is changed by it if no line of its body looks like a name, or
if no hunk of the section comes after it. -/
theorem changedLines_unreadable :
    (∀ q, (changedLines cwd (renderWith before s n u after)).Has q ↔
      (∃ t ∈ before ++ after, t.path? cwd = some q ∧ t.hunks ≠ []) ∨
        (s.path? cwd = some q ∧ s.hunks.take n ≠ []) ∨
        u.fileAfter cwd (s.path? cwd) = some q ∧ s.hunks.drop n ≠ []) ∧
      (∀ q k, (changedLines cwd (renderWith before s n u after)).Holds q k ↔
        (∃ t ∈ before ++ after, t.path? cwd = some q ∧ ∃ h ∈ t.hunks, h.Adds k) ∨
          (s.path? cwd = some q ∧ ∃ h ∈ s.hunks.take n, h.Adds k) ∨
          u.fileAfter cwd (s.path? cwd) = some q ∧ ∃ h ∈ s.hunks.drop n, h.Adds k) ∧
      ((∀ l ∈ u.body, ¬ "+++ ".toList <+: l) ∨ s.hunks.drop n = [] →
        changedLines cwd (renderWith before s n u after) =
          changedLines cwd (render (before ++ s :: after))) := by
  refine ⟨fun q => ?_, fun q k => ?_, fun h => ?_⟩
  · -- A file is known just if some line or the header of some hunk marks it.
    have hsome : ∀ hunks : List Hunk,
        (∃ k : Option Nat, ∃ h ∈ hunks, ∀ i ∈ k, h.Adds i) ↔ hunks ≠ [] := by
      intro hunks
      constructor
      · rintro ⟨-, h, hh, -⟩
        exact List.ne_nil_of_mem hh
      · intro hne
        obtain ⟨h, hh⟩ := List.exists_mem_of_ne_nil _ hne
        exact ⟨none, h, hh, by simp⟩
    have hsections : (∃ k : Option Nat, ∃ t ∈ before ++ after, t.path? cwd = some q ∧
        ∃ h ∈ t.hunks, ∀ i ∈ k, h.Adds i) ↔
        ∃ t ∈ before ++ after, t.path? cwd = some q ∧ t.hunks ≠ [] := by
      simp only [← hsome]
      tauto
    rw [has_changedLines]
    simp only [mem_diffMarks_renderWith, exists_or, hsections, exists_and_left, hsome]
  · rw [holds_changedLines, mem_diffMarks_renderWith]
    simp only [Option.mem_some_iff, forall_eq']
  · have hfile : u.fileAfter cwd (s.path? cwd) = s.path? cwd ∨ s.hunks.drop n = [] := by
      rcases h with h | h
      · exact .inl (UnreadableHunk.fileAfter_eq_self h cwd _)
      · exact .inr h
    rw [changedLines_eq, changedLines_eq, diffMarks_renderWith_eq cwd before s n u after hfile]

end Rendered

/-! ### A body that looks like a name -/

/-- The section of a file with one added line. -/
def counterSection : FileSection where
  oldName := "a.ts".toList
  newName := "a.ts".toList
  extended := ["index 1a2b3c4..5d6e7f8 100644".toList]
  source := some "a/a.ts".toList
  target := .named "a.ts".toList none
  hunks := [{
    oldStart := 1, newStart := 2, isNewShort := true, heading := " let counter = 0;".toList
    body := [⟨.added, "use(counter);".toList, false, by decide⟩]
    heading_line := by decide, oldLength_of_short := by decide, newLength_of_short := by decide
    newStart_lt := by decide, oldLength_lt := by decide, newLength_lt := by decide
    numbers_le := by decide }]
  oldName_line := by decide
  newName_line := by decide
  extended_line := by decide
  extended_ok := by decide
  source_line := by decide
  target_ok := by rintro _ _ ⟨⟩; exact ⟨⟨by decide, by decide, by rintro _ ⟨⟩; decide⟩, by simp⟩
  unmarked_ok := by simp

/-- A hunk with an unreadable header and one added line. -/
def unreadableHunk (line : List Char) (hline : '\n' ∉ line) : UnreadableHunk where
  header := "@@ bogus @@".toList
  body := ['+' :: line]
  header_marks := by decide
  header_unreadable := by decide
  header_line := by decide
  body_sign := by simp
  body_line := by simpa using hline

/-- An added line that is no name changes nothing. -/
theorem changedLines_unreadableLine :
    let u := unreadableHunk "ignored".toList (by decide)
    (∀ l ∈ u.body, ¬ "+++ ".toList <+: l) ∧
      changedLines "/repo".toList (renderWith [] counterSection 0 u []) =
        changedLines "/repo".toList (render [counterSection]) ∧
      changedLines "/repo".toList (render [counterSection]) = ⟨[("/repo/a.ts".toList, [2])]⟩ := by
  intro u
  have hbody : ∀ l ∈ u.body, ¬ "+++ ".toList <+: l := by decide
  have hspec := changedLines_unreadable "/repo".toList [] counterSection 0 u []
  exact ⟨hbody, hspec.2.2 (.inl hbody), by decide⟩

/-- An added line that reads `++ counter;` is taken for the name of the file, and the line that the
next hunk adds to `a.ts` is counted for another file. -/
theorem changedLines_unreadableName :
    let u := unreadableHunk "++ counter;".toList (by decide)
    renderWith [] counterSection 0 u [] = ("diff --git a/a.ts b/a.ts\n" ++
        "index 1a2b3c4..5d6e7f8 100644\n--- a/a.ts\n+++ b/a.ts\n@@ bogus @@\n+++ counter;\n" ++
        "@@ -1,0 +2 @@ let counter = 0;\n+use(counter);\n").toList ∧
      changedLines "/repo".toList (render [counterSection]) = ⟨[("/repo/a.ts".toList, [2])]⟩ ∧
      changedLines "/repo".toList (renderWith [] counterSection 0 u []) =
        ⟨[("/repo/counter;".toList, [2])]⟩ := by
  decide +kernel

end Untranslated.GitDiff
