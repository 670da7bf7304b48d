import Untranslated.Proofs.Lines
import Untranslated.Report

/-!
# Reading a report back

A report is lines: of each file an entry for each violation, blank lines between files, a blank line
and a summary. A text is printed as it is, quotes, colons and all, so an entry is read from both
ends: the first colon ends the path, digits end at a blank, and what is left is the text between the
quotes that come first and last. As no text holds a newline and no entry is blank, nothing in a text
is taken for another line.

* `entryParts?_entryText`: an entry is read back.
* `splitLines_reportText`: the lines of a report.
* `readReport_reportText`: **a report is read back.**
* `report_unambiguous`: with it, that the summary counts what is printed.
-/

namespace Untranslated

open Text (newline_notMem_toDigits splitLines splitLines_unlines unlines unlines_append
  unlines_intercalate)

/-! ### Entries -/

/-- What stands between the line and the text of an entry. -/
def arrow : List Char := " -> \"".toList

/-- An entry for a violation in a file, without the end of its line. -/
def entryText (path : List Char) (line : Nat) (text : List Char) : List Char :=
  path ++ ':' :: (Nat.toDigits 10 line ++ (arrow ++ (text ++ ['"'])))

/-- A line is an entry for some violation in some file. -/
def IsEntry (s : List Char) : Prop :=
  ∃ path line text, ':' ∉ path ∧ text ≠ [] ∧ s = entryText path line text

/-- The path, the line and the text of an entry: what is left and right of the first colon, the
digits that come next, and what stands between quotes behind an arrow. -/
def entryParts? (s : List Char) : Option (List Char × Nat × List Char) :=
  let path := s.takeWhile (· != ':')
  let rest := (s.dropWhile (· != ':')).tail
  let line := Nat.ofDigitChars 10 (rest.takeWhile (·.isDigit)) 0
  let text := ((rest.dropWhile (·.isDigit)).drop arrow.length).dropLast
  if text ≠ [] ∧ s = entryText path line text then some (path, line, text) else none

theorem entryParts?_entryText {path text : List Char} (hpath : ':' ∉ path) (htext : text ≠ [])
    (line : Nat) : entryParts? (entryText path line text) = some (path, line, text) := by
  have hcolon : ∀ c ∈ path, (c != ':') = true := by
    intro c hc
    rw [bne_iff_ne]
    rintro rfl
    exact hpath hc
  have hdigits : ∀ c ∈ Nat.toDigits 10 line, c.isDigit = true :=
    fun c hc => Nat.isDigit_of_mem_toDigits (by omega) (by omega) hc
  have htake : (entryText path line text).takeWhile (· != ':') = path := by
    simp [entryText, List.takeWhile_append_of_pos hcolon]
  have hrest : ((entryText path line text).dropWhile (· != ':')).tail =
      Nat.toDigits 10 line ++ (arrow ++ (text ++ ['"'])) := by
    simp [entryText, List.dropWhile_append_of_pos hcolon]
  have hline : (Nat.toDigits 10 line ++ (arrow ++ (text ++ ['"']))).takeWhile
      (·.isDigit) = Nat.toDigits 10 line := by
    have hblank : (arrow ++ (text ++ ['"'])).takeWhile (·.isDigit) = [] := rfl
    rw [List.takeWhile_append_of_pos hdigits, hblank, List.append_nil]
  have hquoted : (Nat.toDigits 10 line ++ (arrow ++ (text ++ ['"']))).dropWhile
      (·.isDigit) = arrow ++ (text ++ ['"']) := by
    rw [List.dropWhile_append_of_pos hdigits]
    rfl
  have hlast : ((arrow ++ (text ++ ['"'])).drop arrow.length).dropLast = text := by
    rw [List.drop_left, List.dropLast_concat]
  unfold entryParts?
  dsimp only
  rw [htake, hrest, hline, hquoted, hlast, Nat.ofDigitChars_ten_toDigits]
  exact if_pos ⟨htext, rfl⟩

example : entryParts? "a.tsx:12 -> \"b:3 -> \"4\"\"".toList =
    some ("a.tsx".toList, 12, "b:3 -> \"4\"".toList) := by
  decide +kernel

theorem isSome_entryParts?_iff {s : List Char} : (entryParts? s).isSome = true ↔ IsEntry s := by
  constructor
  · intro h
    unfold entryParts? at h
    dsimp only at h
    split_ifs at h with hs
    · refine ⟨_, _, _, fun hmem => ?_, hs.1, hs.2⟩
      exact absurd (List.all_eq_true.1 List.all_takeWhile _ hmem) (by decide)
    · cases h
  · rintro ⟨path, line, text, hpath, htext, rfl⟩
    rw [entryParts?_entryText hpath htext]
    rfl

instance : DecidablePred IsEntry := fun _ => decidable_of_iff _ isSome_entryParts?_iff

theorem entryText_ne_nil (path : List Char) (line : Nat) (text : List Char) :
    entryText path line text ≠ [] := by
  simp [entryText]

theorem newline_notMem_entryText {path text : List Char} (hpath : '\n' ∉ path) (htext : '\n' ∉ text)
    (line : Nat) : '\n' ∉ entryText path line text := by
  have harrow : '\n' ∉ arrow := by decide
  simp [entryText, harrow, hpath, htext, newline_notMem_toDigits]

theorem lineText_eq (shown : List Char) (v : Violation) :
    v.lineText shown = entryText shown v.line v.text ++ ['\n'] := by
  unfold Violation.lineText entryText arrow
  simp

/-! ### Lines -/

/-- The lines of a report on a file. -/
def FileReport.entries (r : FileReport) : List (List Char) :=
  r.violations.map fun v => entryText r.shown v.line v.text

/-- The last line of a report. -/
def summaryText (violations files : Nat) : List Char :=
  "✘ ".toList ++ Nat.toDigits 10 violations ++ " violation(s) in ".toList ++
    Nat.toDigits 10 files ++ " file(s)".toList

/-- The lines of a report that come before its summary and the blank line above that. -/
def bodyLines (rs : List FileReport) : List (List Char) :=
  [[]].intercalate (rs.map FileReport.entries)

/-- A file report that is printed line by line. -/
structure FileReport.Printable (r : FileReport) : Prop where
  violations_ne_nil : r.violations ≠ []
  newline_notMem_shown : '\n' ∉ r.shown
  colon_notMem_shown : ':' ∉ r.shown
  text_ne_nil : ∀ v ∈ r.violations, v.text ≠ []
  newline_notMem_text : ∀ v ∈ r.violations, '\n' ∉ v.text

variable {r : FileReport} {rs rs' : List FileReport}

theorem text_eq_unlines (r : FileReport) : r.text = unlines r.entries := by
  simp [FileReport.text, FileReport.entries, unlines, List.flatMap_map, lineText_eq]

theorem reportText_eq_unlines (h : rs ≠ []) :
    reportText false rs = unlines (bodyLines rs ++
      [[], summaryText (rs.flatMap FileReport.violations).length rs.length]) := by
  have hgroups : rs.map FileReport.text = (rs.map FileReport.entries).map unlines := by
    rw [List.map_map]
    exact List.map_congr_left fun r _ => text_eq_unlines r
  unfold reportText bodyLines summaryText
  rw [if_neg (by simpa using h), unlines_append, unlines_intercalate, hgroups]
  simp [painted, unlines]

theorem FileReport.Printable.isEntry_of_mem (h : r.Printable) :
    ∀ l ∈ r.entries, IsEntry l := by
  intro l hl
  obtain ⟨v, hv, rfl⟩ := List.mem_map.1 hl
  exact ⟨r.shown, v.line, v.text, h.colon_notMem_shown, h.text_ne_nil v hv, rfl⟩

theorem IsEntry.ne_nil {s : List Char} (h : IsEntry s) : s ≠ [] := by
  obtain ⟨path, line, text, -, -, rfl⟩ := h
  exact entryText_ne_nil path line text

theorem FileReport.Printable.newline_notMem (h : r.Printable) :
    ∀ l ∈ r.entries, '\n' ∉ l := by
  intro l hl
  obtain ⟨v, hv, rfl⟩ := List.mem_map.1 hl
  exact newline_notMem_entryText h.newline_notMem_shown (h.newline_notMem_text v hv) v.line

/-- Files are told apart by the blank lines between them. -/
theorem splitOn_bodyLines (hne : rs ≠ []) (h : ∀ r ∈ rs, r.Printable) :
    (bodyLines rs).splitOn [] = rs.map FileReport.entries := by
  refine List.splitOn_intercalate [] (fun g hg hblank => ?_) (by simpa using hne)
  obtain ⟨r, hr, rfl⟩ := List.mem_map.1 hg
  exact ((h r hr).isEntry_of_mem [] hblank).ne_nil rfl

theorem bodyLines_cons (r : FileReport) (h : rs ≠ []) :
    bodyLines (r :: rs) = r.entries ++ [] :: bodyLines rs := by
  rw [bodyLines, List.map_cons, List.intercalate_cons_of_ne_nil (by simpa using h),
    List.append_assoc]
  rfl

theorem bodyLines_singleton (r : FileReport) : bodyLines [r] = r.entries :=
  List.intercalate_singleton

/-- What is no entry is blank. -/
theorem mem_bodyLines {l : List Char} (hl : l ∈ bodyLines rs) :
    l = [] ∨ ∃ r ∈ rs, l ∈ r.entries := by
  induction rs with
  | nil => cases hl
  | cons r rs ih =>
    by_cases hne : rs = []
    · subst hne
      rw [bodyLines_singleton] at hl
      exact .inr ⟨r, List.mem_cons_self, hl⟩
    · rw [bodyLines_cons r hne, List.mem_append, List.mem_cons] at hl
      rcases hl with hl | hl | hl
      · exact .inr ⟨r, List.mem_cons_self, hl⟩
      · exact .inl hl
      · exact (ih hl).imp_right fun ⟨r', hr', hl⟩ => ⟨r', List.mem_cons_of_mem r hr', hl⟩

/-- There are as many entries as violations. -/
theorem countP_bodyLines (h : ∀ r ∈ rs, r.Printable) :
    (bodyLines rs).countP (IsEntry ·) = (rs.flatMap FileReport.violations).length := by
  have hentries : ∀ r ∈ rs, r.entries.countP (IsEntry ·) = r.violations.length := by
    intro r hr
    rw [List.countP_eq_length.2 fun l hl => decide_eq_true ((h r hr).isEntry_of_mem l hl),
      FileReport.entries, List.length_map]
  induction rs with
  | nil => rfl
  | cons r rs ih =>
    have hr := hentries r List.mem_cons_self
    have hrs := ih (fun r' hr' => h r' (List.mem_cons_of_mem r hr'))
      (fun r' hr' => hentries r' (List.mem_cons_of_mem r hr'))
    have hblank : ¬ IsEntry [] := fun h => h.ne_nil rfl
    by_cases hne : rs = []
    · subst hne
      simpa [bodyLines_singleton] using hr
    · simp [bodyLines_cons r hne, hr, hrs, hblank]

/-- **The lines of a report.** -/
theorem splitLines_reportText (hne : rs ≠ []) (h : ∀ r ∈ rs, r.Printable) :
    splitLines (reportText false rs) = bodyLines rs ++
      [[], summaryText (rs.flatMap FileReport.violations).length rs.length, []] := by
  have hsummary (m n : Nat) : '\n' ∉ summaryText m n := by
    unfold summaryText
    simp [newline_notMem_toDigits]
  have hbody : ∀ l ∈ bodyLines rs, '\n' ∉ l := by
    intro l hl
    rcases mem_bodyLines hl with rfl | ⟨r, hr, hl⟩
    · exact List.not_mem_nil
    · exact (h r hr).newline_notMem l hl
  rw [reportText_eq_unlines hne, splitLines_unlines, List.append_assoc]
  · rfl
  · intro l hl
    rcases List.mem_append.1 hl with hl | hl
    · exact hbody l hl
    · rcases List.mem_pair.1 hl with rfl | rfl
      · exact List.not_mem_nil
      · exact hsummary _ _

/-! ### Reading back -/

/-- What a report tells of a file. -/
def FileReport.contents (r : FileReport) : List Char × List (Nat × List Char) :=
  (r.shown, r.violations.map fun v => (v.line, v.text))

/-- The path that the first entry names, and the lines and texts of all entries. -/
def readGroup (g : List (List Char)) : List Char × List (Nat × List Char) :=
  let entries := g.filterMap entryParts?
  (entries.head?.elim [] (·.1), entries.map (·.2))

/-- What a report tells of each file. Its last three pieces are a blank line, the summary and what
comes after the last newline. -/
def readReport (s : List Char) : List (List Char × List (Nat × List Char)) :=
  ((splitLines s).dropLast.dropLast.dropLast.splitOn []).map readGroup

theorem readGroup_entries (h : r.Printable) : readGroup r.entries = r.contents := by
  have hentries : r.entries.filterMap entryParts? =
      r.violations.map fun v => (r.shown, v.line, v.text) := by
    rw [FileReport.entries, List.filterMap_map, ← List.filterMap_eq_map]
    refine List.filterMap_congr fun v hv => ?_
    exact entryParts?_entryText h.colon_notMem_shown (h.text_ne_nil v hv) v.line
  obtain ⟨v, vs, hvs⟩ := List.exists_cons_of_ne_nil h.violations_ne_nil
  simp [readGroup, FileReport.contents, hentries, hvs]

theorem readReport_reportText (hne : rs ≠ []) (h : ∀ r ∈ rs, r.Printable) :
    readReport (reportText false rs) = rs.map FileReport.contents := by
  have hbody : (splitLines (reportText false rs)).dropLast.dropLast.dropLast = bodyLines rs := by
    rw [splitLines_reportText hne h]
    simp
  rw [readReport, hbody, splitOn_bodyLines hne h, List.map_map]
  exact List.map_congr_left fun r hr => readGroup_entries (h r hr)

/-- **A printed report is unambiguous**, whatever the texts hold besides newlines: what it tells of
the files can be read back from it, and its summary counts the entries above it and the groups that
blank lines make of them. -/
theorem report_unambiguous (hne : rs ≠ []) (h : ∀ r ∈ rs, r.Printable) :
    (∀ rs', rs' ≠ [] → (∀ r ∈ rs', r.Printable) → reportText false rs = reportText false rs' →
      rs.map FileReport.contents = rs'.map FileReport.contents) ∧
    ∃ body, splitLines (reportText false rs) =
        body ++ [[], summaryText (body.countP (IsEntry ·)) (body.splitOn []).length, []] ∧
      ∀ g ∈ body.splitOn [], g ≠ [] ∧ ∀ l ∈ g, IsEntry l := by
  refine ⟨fun rs' hne' h' heq => ?_, bodyLines rs, ?_, fun g hg => ?_⟩
  · rw [← readReport_reportText hne h, heq, readReport_reportText hne' h']
  · rw [splitLines_reportText hne h, countP_bodyLines h, splitOn_bodyLines hne h, List.length_map]
  · rw [splitOn_bodyLines hne h] at hg
    obtain ⟨r, hr, rfl⟩ := List.mem_map.1 hg
    refine ⟨?_, (h r hr).isEntry_of_mem⟩
    simpa [FileReport.entries] using (h r hr).violations_ne_nil

/-- Texts that look like the end of an entry, like an entry and like a summary. -/
theorem report_unambiguous_lookalikes :
    let first : FileReport := ⟨"/repo/a.tsx".toList, "a.tsx".toList,
      [⟨3, "Save\" -> \"4".toList⟩, ⟨12, "b.tsx:5 -> \"Hi\"".toList⟩]⟩
    let second : FileReport := ⟨"/repo/b.tsx".toList, "b.tsx".toList,
      [⟨1, "✘ 9 violation(s) in 9 file(s)".toList⟩]⟩
    (∀ r ∈ [first, second], r.Printable) ∧ (∀ r ∈ [second, first], r.Printable) ∧
      reportText false [first, second] ≠ reportText false [second, first] ∧
      ∃ body, splitLines (reportText false [first, second]) =
          body ++ [[], summaryText (body.countP (IsEntry ·)) (body.splitOn []).length, []] ∧
        ∀ g ∈ body.splitOn [], g ≠ [] ∧ ∀ l ∈ g, IsEntry l := by
  intro first second
  have hfirst : first.Printable := ⟨by decide, by decide, by decide, by decide, by decide⟩
  have hsecond : second.Printable := ⟨by decide, by decide, by decide, by decide, by decide⟩
  have h : ∀ r ∈ [first, second], r.Printable :=
    List.forall_mem_cons.2 ⟨hfirst, List.forall_mem_singleton.2 hsecond⟩
  have h' : ∀ r ∈ [second, first], r.Printable :=
    List.forall_mem_cons.2 ⟨hsecond, List.forall_mem_singleton.2 hfirst⟩
  obtain ⟨hinj, hlines⟩ := report_unambiguous (List.cons_ne_nil first [second]) h
  refine ⟨h, h', fun heq => ?_, hlines⟩
  exact absurd (hinj _ (List.cons_ne_nil second [first]) h' heq) (by decide)

end Untranslated
