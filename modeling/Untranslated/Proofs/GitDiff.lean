import Untranslated.Proofs.DiffReading

/-!
# Well-formed diffs

The diffs that a version control system writes, line by line: sections of files, each with a
first line, further header lines, and hunks whose headers count the lines that follow.

* `hunkHeader?_headerLine`: the header of a hunk is read as what it says.
* `passAll_body`: **while the body of a hunk is passed, the counters of the cursor are the numbers
  of old and new lines still unread**, so both are used up exactly at its end.
* `changedLines_render`: **what a well-formed diff adds**, whatever its lines contain.
-/

namespace Untranslated.GitDiff

open Text (lines unlines dropReturn isBlank trimEnd)

/-! ### The form of a diff -/

/-- What a line of a hunk is. -/
inductive Side
  | removed
  | context
  | added
  deriving DecidableEq, Repr

namespace Side

/-- The sign before such a line. -/
def sign : Side → Char
  | removed => '-'
  | context => ' '
  | added => '+'

/-- The line is one of the old file. -/
def isOld (s : Side) : Bool :=
  s != added

/-- The line is one of the new file. -/
def isNew (s : Side) : Bool :=
  s != removed

end Side

/-- A line of a hunk, with any text. -/
structure BodyLine where
  side : Side
  text : List Char
  /-- A note follows that the line is the last one and has no newline. -/
  isUnended : Bool := false
  text_line : '\n' ∉ text

/-- The note after a line without newline. -/
def unendedNote : List Char :=
  "\\ No newline at end of file".toList

/-- The lines that a line of a hunk is written as. -/
def BodyLine.lines (l : BodyLine) : List (List Char) :=
  (l.side.sign :: l.text) :: if l.isUnended then [unendedNote] else []

/-- How many lines are lines of the old file. -/
def oldLength (body : List BodyLine) : Nat :=
  body.countP (·.side.isOld)

/-- How many lines are lines of the new file. -/
def newLength (body : List BodyLine) : Nat :=
  body.countP (·.side.isNew)

/-- A hunk. Its header counts the lines of its body. -/
structure Hunk where
  oldStart : Nat
  newStart : Nat
  /-- The number of old lines is left out of the header. -/
  isOldShort : Bool := false
  /-- The number of new lines is left out of the header. -/
  isNewShort : Bool := false
  /-- The text after the numbers. -/
  heading : List Char
  body : List BodyLine
  heading_line : '\n' ∉ heading
  oldLength_of_short : isOldShort = true → oldLength body = 1
  newLength_of_short : isNewShort = true → newLength body = 1
  newStart_lt : newStart < UInt64.size
  oldLength_lt : oldLength body < UInt64.size
  newLength_lt : newLength body < UInt64.size
  /-- The numbers of the new lines fit 64 bits. -/
  numbers_le : newStart + newLength body ≤ UInt64.size

/-- A range of lines in a header. -/
def rangeText (start : Nat) (isShort : Bool) (length : Nat) : List Char :=
  Nat.toDigits 10 start ++ if isShort then [] else ',' :: Nat.toDigits 10 length

namespace Hunk

/-- The header of a hunk up to its heading. -/
def headerHead (h : Hunk) : List Char :=
  "@@ -".toList ++ (rangeText h.oldStart h.isOldShort (oldLength h.body) ++
    (" +".toList ++ (rangeText h.newStart h.isNewShort (newLength h.body) ++ " @@".toList)))

/-- The header of a hunk. -/
def headerLine (h : Hunk) : List Char :=
  h.headerHead ++ h.heading

/-- The lines of a hunk. -/
def lines (h : Hunk) : List (List Char) :=
  h.headerLine :: h.body.flatMap BodyLine.lines

/-- The new line with this number is an added one: its number counts the new lines before it. -/
def Adds (h : Hunk) (n : Nat) : Prop :=
  ∃ before line after, h.body = before ++ line :: after ∧ line.side = .added ∧
    n = h.newStart + newLength before

end Hunk

/-- How a section names the file after the change. -/
inductive Target
  /-- A marked line with the name, perhaps with more after a tab. -/
  | named (name : List Char) (more : Option (List Char))
  /-- A marked line that says that the file is deleted. -/
  | deleted
  /-- No marked line; the name is the one in the first line. -/
  | unmarked
  deriving DecidableEq, Repr

/-- The lines of a target. -/
def Target.lines : Target → List (List Char)
  | named name more => ["+++ b/".toList ++ (name ++ more.elim [] ('\t' :: ·))]
  | deleted => ["+++ /dev/null".toList]
  | unmarked => []

/-- A name that a marked line can hold as it is. -/
structure IsPlainName (name : List Char) : Prop where
  newline_notMem : '\n' ∉ name
  tab_notMem : '\t' ∉ name
  last_not_blank : ∀ c ∈ name.getLast?, isBlank c = false

/-- The section of a file. -/
structure FileSection where
  oldName : List Char
  newName : List Char
  /-- Header lines between the first line and the marked ones. -/
  extended : List (List Char) := []
  /-- What a line that names the old file says. -/
  source : Option (List Char) := none
  target : Target := .unmarked
  hunks : List Hunk := []
  oldName_line : '\n' ∉ oldName
  newName_line : '\n' ∉ newName
  extended_line : ∀ l ∈ extended, '\n' ∉ l
  extended_ok : ∀ l ∈ extended, ∀ head ∈ ["diff --git ", "+++ ", "@@"], ¬ head.toList <+: l
  source_line : ∀ s ∈ source, '\n' ∉ s
  target_ok : ∀ name more, target = .named name more → IsPlainName name ∧ ∀ t ∈ more, '\n' ∉ t
  /-- Where hunks follow the first line without a marked one, its name is plain to see. -/
  unmarked_ok : target = .unmarked → hunks ≠ [] →
    ¬ " b/".toList <:+: newName ∧ newName.getLast? ≠ some '\r'

namespace FileSection

/-- Both names of the file. -/
def bothNames (s : FileSection) : List Char :=
  ("a/".toList ++ s.oldName) ++ (" b/".toList ++ s.newName)

/-- The first line of a section. -/
def firstLine (s : FileSection) : List Char :=
  "diff --git ".toList ++ s.bothNames

/-- The lines of a section. -/
def lines (s : FileSection) : List (List Char) :=
  s.firstLine :: (s.extended ++ ((s.source.map ("--- ".toList ++ ·)).toList ++
    (s.target.lines ++ s.hunks.flatMap Hunk.lines)))

/-- The lines of a section before its hunks. -/
def head (s : FileSection) : List (List Char) :=
  s.firstLine :: (s.extended ++ ((s.source.map ("--- ".toList ++ ·)).toList ++ s.target.lines))

theorem lines_eq (s : FileSection) : s.lines = s.head ++ s.hunks.flatMap Hunk.lines := by
  simp [lines, head]

/-- The name of the file after the change, if it is not deleted. -/
def name? (s : FileSection) : Option (List Char) :=
  match s.target with
  | .named name _ => some name
  | .deleted => none
  | .unmarked => some s.newName

end FileSection

/-- The text of a diff with these sections. -/
def render (sections : List FileSection) : List Char :=
  unlines (sections.flatMap FileSection.lines)

/-! ### Headers of hunks -/

theorem isDecimalDigit_of_isDigit {c : Char} (h : c.isDigit = true) :
    Text.isDecimalDigit c = true := by
  have hc : c.toNat < 128 := by
    simp only [Char.isDigit, Bool.and_eq_true, decide_eq_true_eq] at h
    have := h.2
    rw [UInt32.le_iff_toNat_le] at this
    change c.toNat ≤ 57 at this
    omega
  unfold Text.isDecimalDigit
  rw [if_pos hc]
  exact h

theorem all_isDigit_toDigits (n : Nat) : ∀ c ∈ Nat.toDigits 10 n, c.isDigit = true :=
  fun _ hc => Nat.isDigit_of_mem_toDigits (by omega) (by omega) hc

theorem number?_toDigits {n : Nat} (h : n < UInt64.size) :
    number? (Nat.toDigits 10 n) = some n := by
  have hall : (Nat.toDigits 10 n).all Char.isDigit = true :=
    List.all_eq_true.2 (all_isDigit_toDigits n)
  have hvalue : (Nat.toDigits 10 n).foldl (fun n c => 10 * n + (c.toNat - '0'.toNat)) 0 = n := by
    rw [← Nat.ofDigitChars_eq_foldl]
    exact Nat.ofDigitChars_ten_toDigits
  unfold number?
  rw [if_pos hall, hvalue]
  exact if_pos h

/-- Digits are read up to a character that is none. -/
theorem digits?_append (n : Nat) {c : Char} (hc : Text.isDecimalDigit c = false)
    (rest : List Char) :
    digits? (Nat.toDigits 10 n ++ c :: rest) = some (Nat.toDigits 10 n, c :: rest) := by
  have htake : (Nat.toDigits 10 n ++ c :: rest).takeWhile Text.isDecimalDigit =
      Nat.toDigits 10 n := by
    rw [List.takeWhile_append_of_pos fun d hd =>
      isDecimalDigit_of_isDigit (all_isDigit_toDigits n d hd)]
    simp [hc]
  have hne : (Nat.toDigits 10 n).isEmpty = false := by
    rw [List.isEmpty_eq_false_iff]
    exact Nat.toDigits_ne_nil
  unfold digits?
  simp only [htake, hne]
  simp

theorem hunkRange?_rangeText (start : Nat) (isShort : Bool) (length : Nat) (rest : List Char) :
    hunkRange? (rangeText start isShort length ++ ' ' :: rest) =
      some (Nat.toDigits 10 start, (if isShort then none else some (Nat.toDigits 10 length)),
        ' ' :: rest) := by
  unfold rangeText hunkRange?
  cases isShort with
  | true =>
    rw [if_pos rfl, List.append_nil, digits?_append start rfl]
    rfl
  | false =>
    rw [if_neg (by simp), List.append_assoc, List.cons_append, digits?_append start rfl]
    simp only [Option.bind_eq_bind, Option.bind_some]
    rw [digits?_append length rfl]
    rfl

/-- The number that a range leaves out or writes. -/
theorem length_of_rangeText {isShort : Bool} {length : Nat} (h : length < UInt64.size)
    (hshort : isShort = true → length = 1) :
    (if isShort then none else some (Nat.toDigits 10 length)).elim (some 1) number? =
      some length := by
  cases isShort with
  | true =>
    rw [hshort rfl]
    rfl
  | false => exact number?_toDigits h

/-- **The header of a hunk is read as what it says**, with any text after the numbers. -/
theorem hunkHeader?_headerHead (h : Hunk) (heading : List Char) :
    hunkHeader? (h.headerHead ++ heading) =
      some ⟨oldLength h.body, h.newStart, newLength h.body⟩ := by
  have hold := hunkRange?_rangeText h.oldStart h.isOldShort (oldLength h.body)
  have hnew := hunkRange?_rangeText h.newStart h.isNewShort (newLength h.body)
  have hplus : ∀ s, " +".toList ++ s = ' ' :: '+' :: s := fun _ => rfl
  have hmarks : ∀ s, " @@".toList ++ s = ' ' :: '@' :: '@' :: s := fun _ => rfl
  unfold Hunk.headerHead hunkHeader?
  simp only [List.append_assoc, after?_append, Option.bind_eq_bind, Option.bind_some]
  rw [hplus, hold]
  simp only [Option.bind_some]
  rw [← hplus, after?_append, Option.bind_some, hmarks, hnew]
  simp only [Option.bind_some]
  rw [← hmarks, after?_append, Option.bind_some,
    length_of_rangeText h.oldLength_lt h.oldLength_of_short, Option.bind_some,
    number?_toDigits h.newStart_lt, Option.bind_some,
    length_of_rangeText h.newLength_lt h.newLength_of_short]
  rfl

/-! ### Bodies of hunks -/

theorem oldLength_cons (l : BodyLine) (body : List BodyLine) :
    oldLength (l :: body) = if l.side.isOld then oldLength body + 1 else oldLength body := by
  unfold oldLength
  rw [List.countP_cons]
  split_ifs <;> rfl

theorem newLength_cons (l : BodyLine) (body : List BodyLine) :
    newLength (l :: body) = if l.side.isNew then newLength body + 1 else newLength body := by
  unfold newLength
  rw [List.countP_cons]
  split_ifs <;> rfl

/-- The numbers of the added lines, where the next new line has the number `n`. -/
def addedFrom (n : Nat) : List BodyLine → List Nat
  | [] => []
  | l :: body =>
    (if l.side = .added then [n] else []) ++ addedFrom (if l.side.isNew then n + 1 else n) body

/-- The number of an added line counts the new lines before it. -/
theorem mem_addedFrom {n k : Nat} {body : List BodyLine} :
    k ∈ addedFrom n body ↔ ∃ before line after, body = before ++ line :: after ∧
      line.side = .added ∧ k = n + newLength before := by
  induction body generalizing n with
  | nil => simp [addedFrom]
  | cons l body ih =>
    rw [addedFrom, List.mem_append, ih]
    constructor
    · rintro (h | ⟨before, line, after, rfl, hline, rfl⟩)
      · split_ifs at h with hl
        · obtain rfl := List.mem_singleton.1 h
          exact ⟨[], l, body, rfl, hl, rfl⟩
        · simp at h
      · refine ⟨l :: before, line, after, rfl, hline, ?_⟩
        rw [newLength_cons]
        split_ifs <;> omega
    · rintro ⟨before, line, after, hbody, hline, rfl⟩
      cases before with
      | nil =>
        obtain ⟨rfl, rfl⟩ := List.cons.inj hbody
        exact .inl (by simp [hline, newLength])
      | cons b before =>
        obtain ⟨rfl, rfl⟩ := List.cons.inj hbody
        refine .inr ⟨before, line, after, rfl, hline, ?_⟩
        rw [newLength_cons]
        split_ifs <;> omega

/-- A note about a missing newline says nothing, in a hunk and after it. -/
theorem pass_unendedNote (cwd : List Char) (c : DiffCursor) :
    c.mark? unendedNote = none ∧ c.pass cwd unendedNote = c := by
  have hheader : hunkHeader? unendedNote = none := rfl
  unfold DiffCursor.mark? DiffCursor.pass DiffCursor.hunkLine?
  rw [hheader]
  cases hc : c.inHunk with
  | true => exact ⟨by cases c.file <;> rfl, rfl⟩
  | false =>
    refine ⟨by cases c.file <;> rfl, ?_⟩
    rw [c.leaveHunk_of_not_inHunk hc]
    rfl

/-- A line of a hunk is counted by its sign, whatever follows the sign. -/
theorem hunkLine?_bodyLine {c : DiffCursor} (h : c.inHunk = true) (side : Side)
    (text : List Char) :
    c.hunkLine? (side.sign :: text) = some { c with
      newLine := if side.isNew then DiffCursor.nextLine c.newLine else c.newLine
      oldRemaining := if side.isOld then c.oldRemaining - 1 else c.oldRemaining
      newRemaining := if side.isNew then c.newRemaining - 1 else c.newRemaining } := by
  unfold DiffCursor.hunkLine?
  rw [if_pos h]
  cases side <;> rfl

theorem mark?_bodyLine {c : DiffCursor} (h : c.inHunk = true) (side : Side) (text : List Char) :
    c.mark? (side.sign :: text) =
      if side = .added then c.file.map fun file => (file, some c.newLine) else none := by
  unfold DiffCursor.mark?
  rw [hunkLine?_bodyLine h]
  cases side <;> cases c.file <;> rfl

/-- The marks of added lines of a file. -/
def addedMarks (file : Option (List Char)) (numbers : List Nat) : List DiffMark :=
  file.elim [] fun path => numbers.map fun n => (path, some n)

theorem addedMarks_append (file : Option (List Char)) (ms ns : List Nat) :
    addedMarks file (ms ++ ns) = addedMarks file ms ++ addedMarks file ns := by
  cases file <;> simp [addedMarks]

/-- The cursor in a hunk with a part of its body ahead. -/
def cursorBefore (file : Option (List Char)) (n : Nat) (body : List BodyLine) : DiffCursor :=
  ⟨file, n % UInt64.size, oldLength body, newLength body⟩

theorem inHunk_cursorBefore (file : Option (List Char)) (n : Nat) (l : BodyLine)
    (body : List BodyLine) : (cursorBefore file n (l :: body)).inHunk = true := by
  unfold cursorBefore DiffCursor.inHunk
  rw [oldLength_cons, newLength_cons]
  cases l.side <;> simp [Side.isOld, Side.isNew]

/-- **The counters are the numbers of lines still unread**: a line of the body leads from the
cursor before it to the cursor before the next one. -/
theorem pass_cursorBefore (cwd : List Char) (file : Option (List Char)) (n : Nat) (l : BodyLine)
    (body : List BodyLine) (text : List Char) :
    (cursorBefore file n (l :: body)).pass cwd (l.side.sign :: text) =
      cursorBefore file (if l.side.isNew then n + 1 else n) body := by
  unfold DiffCursor.pass
  rw [hunkLine?_bodyLine (inHunk_cursorBefore file n l body), Option.getD_some]
  unfold cursorBefore DiffCursor.nextLine
  simp only [oldLength_cons, newLength_cons]
  congr 1
  · split_ifs
    · exact Nat.mod_add_mod n UInt64.size 1
    · rfl
  · split_ifs <;> rfl
  · split_ifs <;> rfl

/-- The mark of a line of the body; a note after it changes nothing. -/
theorem passAll_bodyLine (cwd : List Char) (file : Option (List Char)) (n : Nat) (l : BodyLine)
    (body : List BodyLine) :
    (cursorBefore file n (l :: body)).marks cwd (l.lines.map dropReturn) =
        addedMarks file (if l.side = .added then [n % UInt64.size] else []) ∧
      (l.lines.map dropReturn).foldl (DiffCursor.pass cwd) (cursorBefore file n (l :: body)) =
        cursorBefore file (if l.side.isNew then n + 1 else n) body := by
  have hsign : l.side.sign ≠ '\r' := by cases l.side <;> decide
  have hline : dropReturn (l.side.sign :: l.text) = l.side.sign :: dropReturn l.text :=
    Text.dropReturn_cons _ hsign
  have hpass := pass_cursorBefore cwd file n l body (dropReturn l.text)
  have hmark : ((cursorBefore file n (l :: body)).mark? (l.side.sign :: dropReturn l.text)).toList =
      addedMarks file (if l.side = .added then [n % UInt64.size] else []) := by
    rw [mark?_bodyLine (inHunk_cursorBefore file n l body)]
    split_ifs <;> cases file <;> rfl
  obtain ⟨hnote, hafter⟩ := pass_unendedNote cwd
    (cursorBefore file (if l.side.isNew then n + 1 else n) body)
  unfold BodyLine.lines
  rw [List.map_cons, hline, DiffCursor.marks, List.foldl_cons, hpass, hmark]
  generalize cursorBefore file (if l.side.isNew then n + 1 else n) body = d at hnote hafter
  have hkeep : dropReturn unendedNote = unendedNote := rfl
  cases l.isUnended with
  | true => simp [hkeep, DiffCursor.marks, hnote, hafter]
  | false => simp [DiffCursor.marks]

/-- The body of a hunk marks its added lines, and both counters are used up at its end. -/
theorem passAll_body (cwd : List Char) (file : Option (List Char)) (n : Nat)
    (body : List BodyLine) :
    (cursorBefore file n body).marks cwd ((body.flatMap BodyLine.lines).map dropReturn) =
        addedMarks file ((addedFrom n body).map (· % UInt64.size)) ∧
      ((body.flatMap BodyLine.lines).map dropReturn).foldl (DiffCursor.pass cwd)
        (cursorBefore file n body) = ⟨file, (n + newLength body) % UInt64.size, 0, 0⟩ := by
  induction body generalizing n with
  | nil => exact ⟨by cases file <;> rfl, rfl⟩
  | cons l body ih =>
    obtain ⟨hmark, hpass⟩ := passAll_bodyLine cwd file n l body
    obtain ⟨hmarks, hend⟩ := ih (if l.side.isNew then n + 1 else n)
    rw [List.flatMap_cons, List.map_append, DiffCursor.marks_append, List.foldl_append, hmark,
      hpass, hmarks, hend, addedFrom, List.map_append, addedMarks_append]
    refine ⟨?_, ?_⟩
    · congr 2
      split_ifs <;> rfl
    · congr 2
      rw [newLength_cons]
      split_ifs <;> omega

/-- The numbers of added lines lie in the range of the new lines. -/
theorem lt_of_mem_addedFrom {n k : Nat} {body : List BodyLine} (h : k ∈ addedFrom n body) :
    k < n + newLength body := by
  obtain ⟨before, line, after, rfl, hline, rfl⟩ := mem_addedFrom.1 h
  have hnew : line.side.isNew = true := by rw [hline]; rfl
  have hlength : newLength (before ++ line :: after) =
      newLength before + newLength (line :: after) := List.countP_append
  have hrest : newLength (line :: after) = newLength after + 1 := by
    rw [newLength_cons, if_pos hnew]
  omega

/-! ### Hunks -/

/-- Outside of hunks a line that no header begins with says nothing. -/
theorem pass_otherLine (cwd : List Char) {c : DiffCursor} (hc : c.inHunk = false)
    {line : List Char}
    (h : ∀ head ∈ ["diff --git ", "+++ ", "@@"], ¬ head.toList <+: line) :
    c.mark? line = none ∧ c.pass cwd line = c := by
  have hsection : after? "diff --git " line = none := after?_eq_none_iff.2 (h _ (by simp))
  have htarget : after? "+++ " line = none := after?_eq_none_iff.2 (h _ (by simp))
  have hmarks : after? "@@" line = none := after?_eq_none_iff.2 (h _ (by simp))
  have hheader : hunkHeader? line = none := by
    cases hheader : hunkHeader? line with
    | none => rfl
    | some header => exact absurd (prefix_of_hunkHeader? hheader) (h _ (by simp))
  have hline : c.hunkLine? line = none := by
    unfold DiffCursor.hunkLine?
    rw [hc]
    rfl
  unfold DiffCursor.mark? DiffCursor.pass DiffCursor.passHeader
  rw [hline, hheader, hsection, htarget, hmarks, c.leaveHunk_of_not_inHunk hc]
  exact ⟨by cases c.file <;> rfl, rfl⟩

/-- The header of a hunk sets the counters to the numbers of lines that follow. -/
theorem pass_headerLine (cwd : List Char) {c : DiffCursor} (hc : c.inHunk = false) (h : Hunk) :
    c.mark? (dropReturn h.headerLine) = c.file.map (·, none) ∧
      c.pass cwd (dropReturn h.headerLine) = cursorBefore c.file h.newStart h.body := by
  obtain ⟨t, ht⟩ : ∃ t, dropReturn h.headerLine = h.headerHead ++ t := by
    unfold Hunk.headerLine
    by_cases hheading : h.heading = []
    · refine ⟨[], ?_⟩
      rw [hheading, List.append_nil]
      refine Text.dropReturn_eq_self ?_
      simp [Hunk.headerHead, List.getLast?_cons, List.getLast?_append]
    · exact ⟨dropReturn h.heading, Text.dropReturn_append _ hheading⟩
  have hheader := hunkHeader?_headerHead h t
  have hline : c.hunkLine? (h.headerHead ++ t) = none := by
    unfold DiffCursor.hunkLine?
    rw [hc]
    rfl
  have hsection : after? "diff --git " (h.headerHead ++ t) = none := rfl
  have htarget : after? "+++ " (h.headerHead ++ t) = none := rfl
  have hmarks : ∃ rest, after? "@@" (h.headerHead ++ t) = some rest := ⟨_, rfl⟩
  obtain ⟨rest, hmarks⟩ := hmarks
  rw [ht]
  unfold DiffCursor.mark? DiffCursor.pass DiffCursor.passHeader cursorBefore
  rw [hline, hheader, hsection, htarget, hmarks, Nat.mod_eq_of_lt h.newStart_lt]
  exact ⟨by cases c.file <;> rfl, rfl⟩

/-- A hunk marks its file, and its added lines by their numbers. The cursor is outside of hunks
after it. -/
theorem passAll_hunk (cwd : List Char) {c : DiffCursor} (hc : c.inHunk = false) (h : Hunk) :
    c.marks cwd (h.lines.map dropReturn) =
        (c.file.map (·, none)).toList ++ addedMarks c.file (addedFrom h.newStart h.body) ∧
      ∃ n, (h.lines.map dropReturn).foldl (DiffCursor.pass cwd) c = ⟨c.file, n, 0, 0⟩ := by
  obtain ⟨hmark, hpass⟩ := pass_headerLine cwd hc h
  obtain ⟨hmarks, hend⟩ := passAll_body cwd c.file h.newStart h.body
  -- the numbers fit 64 bits, so none of them wraps
  have hnumbers : (addedFrom h.newStart h.body).map (· % UInt64.size) =
      addedFrom h.newStart h.body := by
    have hmod : ∀ k ∈ addedFrom h.newStart h.body, k % UInt64.size = id k := by
      intro k hk
      have := lt_of_mem_addedFrom hk
      have := h.numbers_le
      exact Nat.mod_eq_of_lt (by omega)
    rw [List.map_congr_left hmod, List.map_id]
  unfold Hunk.lines
  rw [List.map_cons, DiffCursor.marks, List.foldl_cons, hmark, hpass, hmarks, hend, hnumbers]
  exact ⟨rfl, _, rfl⟩

/-- Hunks in a row are read one by one, and the cursor is outside of hunks after them. -/
theorem passAll_hunks (cwd : List Char) {c : DiffCursor} (hc : c.inHunk = false)
    (hunks : List Hunk) :
    c.marks cwd ((hunks.flatMap Hunk.lines).map dropReturn) =
        (hunks.flatMap fun h =>
          (c.file.map (·, none)).toList ++ addedMarks c.file (addedFrom h.newStart h.body)) ∧
      ∃ n, ((hunks.flatMap Hunk.lines).map dropReturn).foldl (DiffCursor.pass cwd) c =
        ⟨c.file, n, 0, 0⟩ := by
  induction hunks generalizing c with
  | nil => exact ⟨rfl, c.newLine, (c.leaveHunk_of_not_inHunk hc).symm⟩
  | cons h hunks ih =>
    obtain ⟨hmarks, n, hend⟩ := passAll_hunk cwd hc h
    obtain ⟨hmarks', n', hend'⟩ := @ih ⟨c.file, n, 0, 0⟩ rfl
    rw [List.flatMap_cons, List.map_append, DiffCursor.marks_append, List.foldl_append, hmarks,
      hend, hmarks', hend']
    exact ⟨rfl, n', rfl⟩

/-! ### Sections -/

/-- Header lines that say nothing of the target. -/
theorem passAll_otherLines (cwd : List Char) {c : DiffCursor} (hc : c.inHunk = false)
    {ls : List (List Char)}
    (h : ∀ l ∈ ls, ∀ head ∈ ["diff --git ", "+++ ", "@@"], ¬ head.toList <+: l) :
    c.marks cwd (ls.map dropReturn) = [] ∧
      (ls.map dropReturn).foldl (DiffCursor.pass cwd) c = c := by
  induction ls with
  | nil => exact ⟨rfl, rfl⟩
  | cons l ls ih =>
    obtain ⟨hmarks, hend⟩ := ih fun m hm => h m (List.mem_cons_of_mem _ hm)
    obtain ⟨hmark, hpass⟩ := @pass_otherLine cwd c hc (dropReturn l) fun head hhead hl =>
      h l (by simp) head hhead (hl.trans (Text.dropReturn_isPrefix l))
    rw [List.map_cons, DiffCursor.marks, List.foldl_cons, hmark, hpass, hmarks, hend]
    exact ⟨rfl, rfl⟩

theorem sectionTarget?_eq_none {s : List Char} (h : ¬ " b/".toList <:+: s) :
    sectionTarget? s = none := by
  induction s with
  | nil => rfl
  | cons c s ih =>
    have htail : ¬ " b/".toList <:+: s := fun hs => h (hs.trans (List.suffix_cons c s).isInfix)
    have hhead : after? " b/" (c :: s) = none := by
      rw [after?_eq_none_iff]
      exact fun hs => h hs.isInfix
    rw [sectionTarget?, ih htail, hhead]

/-- The name in the first line of a section is what follows the last ` b/`. -/
theorem sectionTarget?_append (s : List Char) {name : List Char} (h : ¬ " b/".toList <:+: name) :
    sectionTarget? (s ++ (" b/".toList ++ name)) = some name := by
  induction s with
  | nil =>
    have hname := sectionTarget?_eq_none h
    have hslash : sectionTarget? ('/' :: name) = none := by
      rw [sectionTarget?, hname]
      rfl
    have hletter : sectionTarget? ('b' :: '/' :: name) = none := by
      rw [sectionTarget?, hslash]
      rfl
    change sectionTarget? (' ' :: 'b' :: '/' :: name) = _
    rw [sectionTarget?, hletter]
    rfl
  | cons c s ih => rw [List.cons_append, sectionTarget?, ih]

theorem pass_section_eq (cwd : List Char) (c : DiffCursor) (rest : List Char) :
    c.pass cwd ("diff --git ".toList ++ rest) =
      ⟨(sectionTarget? rest).map (Path.normalize cwd), 0, 0, 0⟩ := by
  rw [(pass_section cwd c (List.prefix_append _ rest)).2]
  rfl

theorem bothNames_ne_nil (s : FileSection) : s.bothNames ≠ [] := by
  simp [FileSection.bothNames]

theorem getLast?_bothNames (s : FileSection) :
    s.bothNames.getLast? = some (s.newName.getLast?.getD '/') := by
  cases hn : s.newName.getLast? with
  | none =>
    rw [List.getLast?_eq_none_iff] at hn
    simp [FileSection.bothNames, hn, List.getLast?_append, List.getLast?_cons]
  | some d => simp [FileSection.bothNames, hn, List.getLast?_cons]

/-- The first line of a section sets the target to the name it ends in. -/
theorem pass_firstLine (cwd : List Char) (c : DiffCursor) (s : FileSection) :
    c.mark? (dropReturn s.firstLine) = none ∧
      ∃ file, c.pass cwd (dropReturn s.firstLine) = ⟨file, 0, 0, 0⟩ ∧
        (s.target = .unmarked → s.hunks ≠ [] → file = s.name?.map (Path.normalize cwd)) := by
  have hline : dropReturn s.firstLine = "diff --git ".toList ++ dropReturn s.bothNames :=
    Text.dropReturn_append "diff --git ".toList (bothNames_ne_nil s)
  rw [hline]
  refine ⟨(pass_section cwd c (List.prefix_append _ _)).1, _, pass_section_eq cwd c _, ?_⟩
  intro htarget hhunks
  obtain ⟨hname, hlast⟩ := s.unmarked_ok htarget hhunks
  have hend : s.bothNames.getLast? ≠ some '\r' := by
    rw [getLast?_bothNames]
    cases hn : s.newName.getLast? with
    | none => simp
    | some d =>
      rw [hn] at hlast
      exact hlast
  have hname? : s.name? = some s.newName := by
    rw [FileSection.name?, htarget]
  rw [Text.dropReturn_eq_self hend, FileSection.bothNames, sectionTarget?_append _ hname, hname?]

theorem trimEnd_eq_self {s : List Char} (h : ∀ c ∈ s.getLast?, isBlank c = false) :
    trimEnd s = s := by
  induction s with
  | nil => rfl
  | cons c s ih =>
    cases s with
    | nil => simp [trimEnd, h c (by simp)]
    | cons d s =>
      have hs := ih fun e he => h e (by rw [List.getLast?_cons_cons]; exact he)
      rw [trimEnd, hs]

/-- A marked line with a name says that name, with more after a tab or without. -/
theorem markedTarget?_append {name : List Char} (h : IsPlainName name) {tail : List Char}
    (htail : tail = [] ∨ ∃ t, tail = '\t' :: t) :
    markedTarget? ("b/".toList ++ (name ++ tail)) = some name := by
  have htake : ("b/".toList ++ (name ++ tail)).takeWhile (· != '\t') = "b/".toList ++ name := by
    have hall : ∀ c ∈ "b/".toList ++ name, (c != '\t') = true := by
      intro c hc
      have : c ≠ '\t' := by
        rintro rfl
        rcases List.mem_append.1 hc with hc | hc
        · simp at hc
        · exact h.tab_notMem hc
      simpa using this
    rw [← List.append_assoc, List.takeWhile_append_of_pos hall]
    rcases htail with rfl | ⟨t, rfl⟩ <;> simp
  have htrim : trimEnd ("b/".toList ++ name) = "b/".toList ++ name := by
    refine trimEnd_eq_self fun c hc => ?_
    cases hn : name.getLast? with
    | none =>
      rw [List.getLast?_eq_none_iff] at hn
      rw [hn] at hc
      obtain rfl : '/' = c := by simpa using hc
      rfl
    | some d =>
      rw [List.getLast?_append, hn] at hc
      obtain rfl : d = c := by simpa using hc
      exact h.last_not_blank d hn
  have hnull : "b/".toList ++ name ≠ "/dev/null".toList := fun h => by simp at h
  unfold markedTarget?
  simp only [htake, htrim]
  rw [if_neg hnull, after?_append]
  rfl

theorem pass_marked_eq (cwd : List Char) (file : Option (List Char)) (rest : List Char) :
    (⟨file, 0, 0, 0⟩ : DiffCursor).mark? ("+++ ".toList ++ rest) = none ∧
      (⟨file, 0, 0, 0⟩ : DiffCursor).pass cwd ("+++ ".toList ++ rest) =
        ⟨(markedTarget? rest).map (Path.normalize cwd), 0, 0, 0⟩ := by
  have hheader : hunkHeader? ("+++ ".toList ++ rest) = none := rfl
  constructor
  · unfold DiffCursor.mark?
    rw [hheader]
    cases file <;> rfl
  · unfold DiffCursor.pass DiffCursor.passHeader
    rw [after?_append]
    rfl

/-- The line that names a file keeps the name when it loses a carriage return at its end. -/
theorem dropReturn_marked {name : List Char} (h : IsPlainName name) (more : Option (List Char)) :
    ∃ tail, (tail = [] ∨ ∃ t, tail = '\t' :: t) ∧
      dropReturn ("+++ b/".toList ++ (name ++ more.elim [] ('\t' :: ·))) =
        "+++ ".toList ++ ("b/".toList ++ (name ++ tail)) := by
  cases more with
  | none =>
    have hend : ("+++ b/".toList ++ (name ++ [])).getLast? ≠ some '\r' := by
      intro hlast
      cases hn : name.getLast? with
      | none =>
        rw [List.getLast?_eq_none_iff] at hn
        simp [hn] at hlast
      | some d =>
        obtain rfl : d = '\r' := by simpa [hn, List.getLast?_append, List.getLast?_cons] using hlast
        have := h.last_not_blank _ hn
        simp [isBlank] at this
    exact ⟨[], .inl rfl, Text.dropReturn_eq_self hend⟩
  | some t =>
    refine ⟨'\t' :: dropReturn t, .inr ⟨_, rfl⟩, ?_⟩
    have htail : dropReturn ('\t' :: t) = '\t' :: dropReturn t :=
      Text.dropReturn_cons '\t' (by decide)
    rw [Option.elim_some, ← List.append_assoc,
      Text.dropReturn_append _ (List.cons_ne_nil '\t' t), htail, List.append_assoc]
    rfl

/-- The marked line of a section sets the target. -/
theorem pass_target (cwd : List Char) (file : Option (List Char)) (s : FileSection)
    (hfile : s.target = .unmarked → s.hunks ≠ [] → file = s.name?.map (Path.normalize cwd)) :
    (⟨file, 0, 0, 0⟩ : DiffCursor).marks cwd (s.target.lines.map dropReturn) = [] ∧
      ∃ file', (s.target.lines.map dropReturn).foldl (DiffCursor.pass cwd) ⟨file, 0, 0, 0⟩ =
        ⟨file', 0, 0, 0⟩ ∧ (s.hunks ≠ [] → file' = s.name?.map (Path.normalize cwd)) := by
  cases htarget : s.target with
  | unmarked => exact ⟨rfl, file, rfl, hfile htarget⟩
  | deleted =>
    obtain ⟨hmark, hpass⟩ := pass_marked_eq cwd file "/dev/null".toList
    have hname? : s.name? = none := by rw [FileSection.name?, htarget]
    refine ⟨?_, none, ?_, fun _ => by rw [hname?]; rfl⟩
    · change (DiffCursor.mark? _ ("+++ ".toList ++ "/dev/null".toList)).toList ++ [] = []
      rw [hmark]
      rfl
    · exact hpass
  | named name more =>
    obtain ⟨hname, hmore⟩ := s.target_ok name more htarget
    have hname? : s.name? = some name := by rw [FileSection.name?, htarget]
    obtain ⟨tail, htail, hline⟩ := dropReturn_marked hname more
    obtain ⟨hmark, hpass⟩ := pass_marked_eq cwd file ("b/".toList ++ (name ++ tail))
    rw [markedTarget?_append hname htail] at hpass
    refine ⟨?_, some (Path.normalize cwd name), ?_, fun _ => by rw [hname?]; rfl⟩
    · simp only [Target.lines, List.map_cons, List.map_nil, hline, DiffCursor.marks, hmark]
      rfl
    · simp only [Target.lines, List.map_cons, List.map_nil, hline, List.foldl_cons, hpass]
      rfl

/-- The marks of a section. -/
def FileSection.marks (cwd : List Char) (s : FileSection) : List DiffMark :=
  let file := s.name?.map (Path.normalize cwd)
  s.hunks.flatMap fun h =>
    (file.map (·, none)).toList ++ addedMarks file (addedFrom h.newStart h.body)

/-- The lines of a section before its hunks mark nothing, and leave the cursor outside of hunks and
at the file that the section names. -/
theorem passAll_head (cwd : List Char) (c : DiffCursor) (s : FileSection) :
    c.marks cwd (s.head.map dropReturn) = [] ∧
      ∃ file, (s.head.map dropReturn).foldl (DiffCursor.pass cwd) c = ⟨file, 0, 0, 0⟩ ∧
        (s.hunks ≠ [] → file = s.name?.map (Path.normalize cwd)) := by
  obtain ⟨hmark, file, hpass, hfile⟩ := pass_firstLine cwd c s
  have hextended := @passAll_otherLines cwd ⟨file, 0, 0, 0⟩ rfl s.extended s.extended_ok
  have hsource := @passAll_otherLines cwd ⟨file, 0, 0, 0⟩ rfl
    (s.source.map ("--- ".toList ++ ·)).toList (by
      intro l hl head hhead
      obtain ⟨t, -, rfl⟩ := Option.map_eq_some_iff.1 (Option.mem_toList.1 hl)
      simp only [List.mem_cons, List.not_mem_nil, or_false] at hhead
      rcases hhead with rfl | rfl | rfl <;> simp)
  obtain ⟨htarget, file', hpass', hfile'⟩ := pass_target cwd file s hfile
  unfold FileSection.head
  simp only [List.map_cons, List.map_append, DiffCursor.marks, DiffCursor.marks_append,
    List.foldl_cons, List.foldl_append, hmark, hpass, hextended, hsource, htarget, hpass']
  exact ⟨rfl, file', rfl, hfile'⟩

/-- A section is read alike from everywhere. -/
theorem marks_section (cwd : List Char) (c : DiffCursor) (s : FileSection) :
    c.marks cwd (s.lines.map dropReturn) = s.marks cwd := by
  obtain ⟨hmarks, file, hpass, hfile⟩ := passAll_head cwd c s
  rw [s.lines_eq, List.map_append, DiffCursor.marks_append, hmarks, hpass, List.nil_append,
    (passAll_hunks cwd rfl s.hunks).1]
  unfold FileSection.marks
  by_cases hhunks : s.hunks = []
  · rw [hhunks]
    rfl
  · rw [hfile hhunks]

theorem marks_sections (cwd : List Char) (c : DiffCursor) (sections : List FileSection) :
    c.marks cwd ((sections.flatMap FileSection.lines).map dropReturn) =
      sections.flatMap (FileSection.marks cwd) := by
  induction sections generalizing c with
  | nil => rfl
  | cons s sections ih =>
    rw [List.flatMap_cons, List.map_append, DiffCursor.marks_append, marks_section, ih]
    rfl

/-! ### Texts of diffs -/

theorem newline_notMem_rangeText (start : Nat) (isShort : Bool) (length : Nat) :
    '\n' ∉ rangeText start isShort length := by
  unfold rangeText
  cases isShort <;> simp [Text.newline_notMem_toDigits]

theorem newline_notMem_hunk (h : Hunk) : ∀ l ∈ h.lines, '\n' ∉ l := by
  intro l hl
  rcases List.mem_cons.1 hl with rfl | hl
  · simp [Hunk.headerLine, Hunk.headerHead, newline_notMem_rangeText, h.heading_line]
  · obtain ⟨b, -, hb⟩ := List.mem_flatMap.1 hl
    unfold BodyLine.lines at hb
    rcases List.mem_cons.1 hb with rfl | hb
    · have hsign : '\n' ≠ b.side.sign := by cases b.side <;> decide
      simp [hsign, b.text_line]
    · split_ifs at hb
      · obtain rfl := List.mem_singleton.1 hb
        decide
      · simp at hb

theorem newline_notMem_target (s : FileSection) : ∀ l ∈ s.target.lines, '\n' ∉ l := by
  intro l hl
  cases htarget : s.target with
  | unmarked => simp [htarget, Target.lines] at hl
  | deleted =>
    rw [htarget] at hl
    obtain rfl := List.mem_singleton.1 hl
    decide
  | named name more =>
    obtain ⟨hname, hmore⟩ := s.target_ok name more htarget
    rw [htarget] at hl
    obtain rfl := List.mem_singleton.1 hl
    cases more with
    | none => simp [hname.newline_notMem]
    | some t => simp [hname.newline_notMem, hmore t rfl]

theorem newline_notMem_section (s : FileSection) : ∀ l ∈ s.lines, '\n' ∉ l := by
  intro l hl
  unfold FileSection.lines at hl
  simp only [List.mem_cons, List.mem_append] at hl
  rcases hl with hl | hl | hl | hl | hl
  · have hnames : '\n' ∉ s.bothNames := by
      simp [FileSection.bothNames, s.oldName_line, s.newName_line]
    rw [hl]
    unfold FileSection.firstLine
    simp [hnames]
  · exact s.extended_line l hl
  · obtain ⟨t, ht, rfl⟩ := Option.map_eq_some_iff.1 (Option.mem_toList.1 hl)
    simp [s.source_line t ht]
  · exact newline_notMem_target s l hl
  · obtain ⟨h, -, hl⟩ := List.mem_flatMap.1 hl
    exact newline_notMem_hunk h l hl

theorem diffMarks_render (cwd : List Char) (sections : List FileSection) :
    diffMarks cwd (render sections) = sections.flatMap (FileSection.marks cwd) := by
  unfold diffMarks render
  rw [Text.lines_unlines, marks_sections]
  intro l hl
  obtain ⟨s, -, hl⟩ := List.mem_flatMap.1 hl
  exact newline_notMem_section s l hl

/-- The marks of hunks of a file, if it is known and not deleted. -/
def hunkMarks (file : Option (List Char)) (hunks : List Hunk) : List DiffMark :=
  hunks.flatMap fun h =>
    (file.map (·, none)).toList ++ addedMarks file (addedFrom h.newStart h.body)

/-- What the marks of hunks say of a path. -/
theorem mem_hunkMarks {file : Option (List Char)} {hunks : List Hunk} {q : List Char}
    {n : Option Nat} :
    (q, n) ∈ hunkMarks file hunks ↔ file = some q ∧ ∃ h ∈ hunks, ∀ k ∈ n, h.Adds k := by
  unfold hunkMarks
  cases file with
  | none => simp [addedMarks]
  | some path =>
    have hadds : ∀ (h : Hunk) k, k ∈ addedFrom h.newStart h.body ↔ h.Adds k :=
      fun _ _ => mem_addedFrom
    simp only [List.mem_flatMap, Option.map_some, Option.toList_some, List.mem_append,
      List.mem_singleton, addedMarks, Option.elim_some, List.mem_map, hadds, Option.some.injEq,
      Prod.mk.injEq]
    constructor
    · rintro ⟨h, hh, ⟨rfl, rfl⟩ | ⟨k, hk, rfl, rfl⟩⟩
      · exact ⟨rfl, h, hh, by simp⟩
      · exact ⟨rfl, h, hh, by simpa using hk⟩
    · rintro ⟨rfl, h, hh, hn⟩
      cases n with
      | none => exact ⟨h, hh, .inl ⟨rfl, rfl⟩⟩
      | some k => exact ⟨h, hh, .inr ⟨k, hn k rfl, rfl, rfl⟩⟩

/-- What the marks of a section say of a path. -/
theorem mem_marks_iff {cwd : List Char} {s : FileSection} {q : List Char} {n : Option Nat} :
    (q, n) ∈ s.marks cwd ↔ s.name?.map (Path.normalize cwd) = some q ∧
      ∃ h ∈ s.hunks, ∀ k ∈ n, h.Adds k :=
  mem_hunkMarks

/-- **What a well-formed diff adds.** The changed files are those of the sections with hunks whose
file is not deleted, under their normal paths, and the lines of a file are the added lines of all
its hunks, by their numbers in the new file. No other map answers so (`ChangedLines.ext`). -/
theorem changedLines_render (cwd : List Char) (sections : List FileSection) :
    ChangedLines.Canonical (changedLines cwd (render sections)).files ∧
      (∀ q, (changedLines cwd (render sections)).Has q ↔
        ∃ s ∈ sections, s.name?.map (Path.normalize cwd) = some q ∧ s.hunks ≠ []) ∧
      (∀ q n, (changedLines cwd (render sections)).Holds q n ↔
        ∃ s ∈ sections, s.name?.map (Path.normalize cwd) = some q ∧ ∃ h ∈ s.hunks, h.Adds n) := by
  refine ⟨canonical_changedLines cwd _, fun q => ?_, fun q n => ?_⟩
  · rw [has_changedLines, diffMarks_render]
    simp only [List.mem_flatMap, mem_marks_iff]
    constructor
    · rintro ⟨n, s, hs, hq, h, hh, -⟩
      exact ⟨s, hs, hq, List.ne_nil_of_mem hh⟩
    · rintro ⟨s, hs, hq, hne⟩
      obtain ⟨h, hh⟩ := List.exists_mem_of_ne_nil _ hne
      exact ⟨none, s, hs, hq, h, hh, by simp⟩
  · rw [holds_changedLines, diffMarks_render]
    simp only [List.mem_flatMap, mem_marks_iff, Option.mem_some_iff, forall_eq']

/-- A line that looks like a header is an added one where the counters say so. -/
example :
    let s : FileSection := {
      oldName := ['x'], newName := ['x'], target := .named ['x'] none
      hunks := [{
        oldStart := 1, newStart := 1, isOldShort := true, heading := []
        body := [⟨.context, ['a'], false, by decide⟩, ⟨.added, "++ b/y".toList, true, by decide⟩]
        heading_line := by decide, oldLength_of_short := by decide, newLength_of_short := by decide
        newStart_lt := by decide, oldLength_lt := by decide, newLength_lt := by decide
        numbers_le := by decide }]
      oldName_line := by decide, newName_line := by decide, extended_line := by simp
      extended_ok := by simp, source_line := by simp
      target_ok := by rintro _ _ ⟨⟩; exact ⟨⟨by decide, by decide, by rintro _ ⟨⟩; decide⟩, by simp⟩
      unmarked_ok := by simp }
    render [s] = ("diff --git a/x b/x\n+++ b/x\n@@ -1 +1,2 @@\n a\n+++ b/y\n" ++
        "\\ No newline at end of file\n").toList ∧
      changedLines "/r".toList (render [s]) = ⟨[("/r/x".toList, [2])]⟩ := by
  decide

end Untranslated.GitDiff
