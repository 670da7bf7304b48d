import Untranslated.Proofs.KeptCharacters
import Untranslated.Proofs.RecordedLiterals
import Untranslated.Proofs.Verdicts

/-!
# Where violations stand

The text of a violation is cut out of the stripped script three times: the literal out of the
text, its content out of its delimiters, and what is no blank out of the content. Each cut says
how many bytes it passes, so the offset whose line is reported is that of the first character of
the text (`exists_lead`). Stripping moves no character to another line, so that character stands
on the same line of the script itself.

* `candidate_spec`: where the text of a candidate stands in the script it is read from.
* `isAnchored_of_classify`: where a violation stands in the script and in what stripping leaves.
-/

namespace Untranslated

namespace Text

/-! ### Trimming -/

/-- A text without blanks at its ends. -/
structure IsTrimmed (s : List Char) : Prop where
  ne_nil : s ≠ []
  head : ∀ c ∈ s.head?, isBlank c = false
  last : ∀ c ∈ s.getLast?, isBlank c = false

/-- **Trimming takes blanks off the end.** -/
theorem exists_trimEnd (s : List Char) :
    ∃ tail, s = trimEnd s ++ tail ∧ ∀ b ∈ tail, isBlank b = true := by
  induction s with
  | nil => exact ⟨[], rfl, nofun⟩
  | cons c s ih =>
    obtain ⟨tail, hs, htail⟩ := ih
    rw [trimEnd]
    cases h : trimEnd s with
    | nil =>
      rw [h, List.nil_append] at hs
      by_cases hc : isBlank c
      · refine ⟨c :: s, by simp [hc], ?_⟩
        rw [hs]
        exact List.forall_mem_cons.2 ⟨hc, htail⟩
      · exact ⟨s, by simp [hc], hs ▸ htail⟩
    | cons d kept =>
      rw [h] at hs
      exact ⟨tail, by rw [hs]; rfl, htail⟩

/-- A text that does not begin with a blank keeps its first character. -/
theorem head?_trimEnd {s : List Char} (h : ∀ c ∈ s.head?, isBlank c = false) :
    (trimEnd s).head? = s.head? := by
  cases s with
  | nil => rfl
  | cons c s =>
    have hc : isBlank c = false := h c rfl
    rw [trimEnd]
    cases trimEnd s <;> simp [hc]

theorem isBlank_of_mem_getLast?_trimEnd {s : List Char} {c : Char} (h : c ∈ (trimEnd s).getLast?) :
    isBlank c = false := by
  induction s with
  | nil => simp [trimEnd] at h
  | cons d s ih =>
    rw [trimEnd] at h
    cases hs : trimEnd s with
    | nil =>
      rw [hs] at h
      by_cases hd : isBlank d
      · simp [hd] at h
      · simp only [hd, Bool.false_eq_true, if_false, List.getLast?_singleton,
          Option.mem_some_iff] at h
        rw [← h]
        simpa using hd
    | cons e kept =>
      rw [hs] at h ih
      exact ih (by simpa [List.getLast?_cons_cons] using h)

theorem isBlank_of_mem_head?_trimStart {s : List Char} {c : Char} (h : c ∈ (trimStart s).head?) :
    isBlank c = false := by
  have hnot := List.head?_dropWhile_not isBlank s
  rw [trimStart, Option.mem_def] at h
  rw [h] at hnot
  simpa using hnot

/-- **Trimming takes blanks off both ends.** -/
theorem exists_trim (s : List Char) : ∃ lead tail, s = lead ++ trim s ++ tail ∧
    bytes lead = bytes s - bytes (trimStart s) := by
  obtain ⟨tail, htail, -⟩ := exists_trimEnd (trimStart s)
  have hs : s.takeWhile isBlank ++ trimStart s = s := List.takeWhile_append_dropWhile
  refine ⟨s.takeWhile isBlank, tail, ?_, ?_⟩
  · rw [List.append_assoc, trim, ← htail, hs]
  · have hbytes := congrArg bytes hs
    rw [bytes_append] at hbytes
    omega

theorem isTrimmed_trim {s : List Char} (h : trim s ≠ []) : IsTrimmed (trim s) := by
  refine ⟨h, fun c hc => ?_, fun c hc => isBlank_of_mem_getLast?_trimEnd hc⟩
  rw [trim, head?_trimEnd fun d hd => isBlank_of_mem_head?_trimStart hd] at hc
  exact isBlank_of_mem_head?_trimStart hc

end Text

open Text (bytes lineAt trim trimStart IsTrimmed)

/-! ### The content of a literal -/

/-- Dropping a closing mark or not leaves the head of a text. -/
theorem exists_dropLast (p : Prop) [Decidable p] (s : List Char) :
    ∃ tail, s = (if p then s.dropLast else s) ++ tail := by
  split
  · exact ⟨s.drop (s.length - 1), by rw [List.dropLast_eq_take, List.take_append_drop]⟩
  · exact ⟨[], by simp⟩

/-- A text that does not end before a mark goes on with it. -/
theorem takeWhile_append_drop (mark : Char) {s : List Char}
    (h : (s.takeWhile (· != mark)).length ≠ s.length) :
    s = s.takeWhile (· != mark) ++ mark :: s.drop ((s.takeWhile (· != mark)).length + 1) := by
  induction s with
  | nil => exact absurd rfl h
  | cons c s ih =>
    by_cases hc : c = mark
    · simp [hc]
    · rw [List.takeWhile_cons_of_pos (by simpa using hc)] at h ⊢
      have hs := ih fun heq => h (congrArg (· + 1) heq)
      exact congrArg (c :: ·) hs

/-- An opening mark is no closing one. -/
theorem head?_dropClosing {mark : Char} (hmark : mark.utf8Size = 1) {outer : List Char}
    (h : outer.head? = some mark) : (dropClosing mark outer).head? = some mark := by
  unfold dropClosing
  split
  case isTrue hlong =>
    obtain _ | ⟨c, _ | ⟨d, rest⟩⟩ := outer
    · cases h
    · obtain rfl : c = mark := Option.some.inj h
      simp [hmark] at hlong
    · exact h
  case isFalse => exact h

/-- **The content of a literal stands in it behind as many bytes as are said to be skipped.** -/
theorem exists_content {d : Delimiter} (hd : ∀ mark, d = .quote mark → mark.utf8Size = 1)
    (outer : List Char) : ∃ lead tail, outer = lead ++ (content d outer).1 ++ tail ∧
      bytes lead = (content d outer).2 := by
  cases d with
  | none => exact ⟨[], [], by simp [content], rfl⟩
  | regex => exact ⟨[], [], by simp [content], rfl⟩
  | quote mark =>
    obtain ⟨tail, htail⟩ : ∃ tail, outer = dropClosing mark outer ++ tail :=
      exists_dropLast _ outer
    unfold content
    dsimp only
    by_cases hhead : outer.head? = some mark
    · obtain ⟨inner, hinner⟩ :=
        List.head?_eq_some_iff.1 (head?_dropClosing (hd mark rfl) hhead)
      rw [if_pos (by simpa using hhead)]
      refine ⟨[mark], tail, ?_, by simp [hd mark rfl]⟩
      rw [hinner] at htail ⊢
      exact htail
    · rw [if_neg (by simpa using hhead)]
      exact ⟨[], tail, htail, rfl⟩
  | template =>
    unfold content
    dsimp only
    split
    case isTrue => exact ⟨[], [], by simp, rfl⟩
    case isFalse hlength =>
      have houter := takeWhile_append_drop '\x60' hlength
      obtain ⟨tail, htail⟩ := exists_dropLast
        ((outer.drop ((outer.takeWhile (· != '\x60')).length + 1)).getLast? == some '\x60')
        (outer.drop ((outer.takeWhile (· != '\x60')).length + 1))
      refine ⟨outer.takeWhile (· != '\x60') ++ ['\x60'], tail, ?_, ?_⟩
      · rw [List.append_assoc, ← htail, List.append_assoc]
        exact houter
      · rw [Text.bytes_append]
        rfl

/-! ### Candidates -/

/-- The quote of a string is one byte long. -/
theorem utf8Size_of_delimiterAt {y : Occurrence} {rest : List Char} {mark : Char}
    (h : Script.delimiterAt y rest = .quote mark) : mark.utf8Size = 1 := by
  unfold Script.delimiterAt at h
  split at h
  case h_1 =>
    obtain rfl := Delimiter.quote.inj h
    unfold quoteOf
    split <;> rfl
  case h_2 hquote => exact absurd h (hquote mark)

/-- **The text of a candidate stands where its line says**, cut out of its literal. -/
theorem exists_lead {y : Occurrence} {a outer b : List Char} {c : Candidate}
    (hlo : y.lo = bytes a) (hhi : y.hi = y.lo + bytes outer)
    (h : y.candidate? (a ++ outer ++ b) (a ++ outer ++ b) = some (some c)) :
    IsTrimmed c.text ∧ ∃ lead tail, outer = lead ++ c.text ++ tail ∧
      c.line = lineAt (y.lo + bytes lead) (a ++ outer ++ b) := by
  let delimiter := Script.delimiterAt y (outer ++ b)
  let body := (content delimiter outer).1
  have hcut : y.hi - y.lo = bytes outer := by omega
  obtain ⟨opening, closing, houter, hskipped⟩ :
      ∃ opening closing, outer = opening ++ body ++ closing ∧
        bytes opening = (content delimiter outer).2 :=
    exists_content (fun _ => utf8Size_of_delimiterAt) outer
  obtain ⟨indent, tail, hbody, hindent⟩ := Text.exists_trim body
  have hne : trim body ≠ [] := by
    obtain ⟨c', hc', hblank⟩ := Script.exists_candidate? (b := b) hlo hhi
    obtain rfl := Option.some.inj (hc'.symm.trans h)
    exact fun hnil => nomatch hblank.2 hnil
  have hcandidate : c.text = trim body ∧
      c.line = lineAt (y.lo + (content delimiter outer).2 + (bytes body - bytes (trimStart body)))
        (a ++ outer ++ b) := by
    unfold Occurrence.candidate? at h
    rw [List.append_assoc, hlo, Text.cutBack?_append, ← hlo] at h
    simp only [Option.bind_eq_bind, Option.bind_some, hcut, Text.cut?_append] at h
    have hkept := (if_neg fun hnil => hne (List.isEmpty_iff.1 hnil)).symm.trans h
    obtain rfl := Option.some.inj (Option.some.inj hkept)
    exact ⟨rfl, by rw [List.append_assoc]; rfl⟩
  obtain ⟨htext, hline⟩ := hcandidate
  rw [htext]
  refine ⟨Text.isTrimmed_trim hne, opening ++ indent, tail ++ closing, ?_, ?_⟩
  · calc outer = opening ++ body ++ closing := houter
      _ = opening ++ (indent ++ trim body ++ tail) ++ closing := by rw [← hbody]
      _ = opening ++ indent ++ trim body ++ (tail ++ closing) := by
        simp only [List.append_assoc]
  · rw [hline, ← hskipped, ← hindent, Text.bytes_append, Nat.add_assoc]

open Script (Dialect Tree IsOutside read strip)

variable {o : Options} {dialect : Dialect} {s : List Char} {t : Tree}

/-- **Where the text of a candidate stands** in the script it is read from. -/
theorem candidate_spec {cs : List Candidate} (hmark : s.head? ≠ some '\ufeff')
    (hread : read dialect s = .ok t) (hcs : candidates o dialect s = .ok cs) {c : Candidate}
    (hc : c ∈ cs) : IsTrimmed c.text ∧ ∃ lead tail, s = lead ++ c.text ++ tail ∧
      c.line = lineAt (bytes lead) s := by
  obtain ⟨x, y, hplace, hoccurrence, hsome⟩ :=
    Script.exists_place_of_mem_candidates hmark hread hcs hc
  obtain ⟨a, b, htext, hlo⟩ := hplace.exists_text
  obtain ⟨hlo', hhi, -⟩ :=
    Script.spec_of_literal? (Script.literal?_of_occurrence? hoccurrence) b
  rw [htext] at hsome
  obtain ⟨htrimmed, lead, tail, houter, hline⟩ := exists_lead (hlo'.trans hlo.symm) hhi hsome
  rw [hlo', ← hlo, ← Text.bytes_append] at hline
  rw [← Script.text_of_read hmark hread]
  refine ⟨htrimmed, a ++ lead, tail ++ b, ?_, by rw [hline, ← htext]⟩
  rw [htext, houter]
  simp only [List.append_assoc]

/-! ### Violations -/

/-- Where a violation stands in the script `s` with the tree `t` and in `out`, which stripping
leaves of it. -/
structure IsAnchored (s out : List Char) (t : Tree) (v : Violation) : Prop where
  isTrimmed : IsTrimmed v.text
  /-- Its text stands in the stripped script on its line. -/
  stripped : ∃ lead tail, out = lead ++ v.text ++ tail ∧ v.line = lead.count '\n' + 1
  /-- Its first character stands in the script on the same line, which readers of directives and
  of diffs number alike, and outside of all that is erased. -/
  source : ∃ c lead tail line, v.text.head? = some c ∧ s = lead ++ c :: tail ∧
    v.line = lead.count '\n' + 1 ∧ IsOutside s t (bytes lead) ∧
    (Text.lines s)[v.line - 1]? = some line ∧ c ∈ line

variable {out : List Char} {only : Option (List Nat)}

/-- A text of the stripped script is anchored if its line is that of its first character. -/
theorem isAnchored_of_lineAt (hmark : s.head? ≠ some '\ufeff') (hreturns : Text.ReturnsEnd s)
    (hread : read dialect s = .ok t) (hstrip : strip dialect s = .ok out) {v : Violation}
    (htrimmed : IsTrimmed v.text) {lead tail : List Char} (hout : out = lead ++ v.text ++ tail)
    (hline : v.line = lineAt (bytes lead) out) : IsAnchored s out t v := by
  obtain ⟨c, rest, htext⟩ := List.exists_cons_of_ne_nil htrimmed.ne_nil
  have hblank : Text.isBlank c = false := htrimmed.head c (by rw [htext]; rfl)
  have hnewline : c ≠ '\n' := Text.ne_of_isBlank hblank (by decide)
  have hreturn : c ≠ '\r' := Text.ne_of_isBlank hblank (by decide)
  have hsplit : out = lead ++ c :: (rest ++ tail) := by
    rw [hout, htext]
    simp
  have hends := Script.returnsEnd_strip hmark hread hstrip hreturns
  have hcount : v.line = lead.count '\n' + 1 := by
    rw [hline, hsplit]
    exact Text.lineAt_append hnewline (hsplit ▸ hends)
  obtain ⟨lead', tail', hs, hcount', houtside⟩ :=
    Script.exists_source hmark hread hstrip hblank hsplit
  obtain ⟨line, hgetElem, hmem⟩ := Text.exists_lines_of_append lead' tail' hnewline hreturn
  have hsource : v.line = lead'.count '\n' + 1 := by rw [hcount, hcount']
  refine ⟨htrimmed, ⟨lead, tail, hout, hcount⟩,
    c, lead', tail', line, by rw [htext]; rfl, hs, hsource, houtside, ?_, hmem⟩
  rw [hs, hsource, Nat.add_sub_cancel]
  exact hgetElem

/-- **Every violation is anchored at its line of the script**, and no cut is out of place. -/
theorem isAnchored_of_classify (o : Options) (dialect : Dialect) {s : List Char}
    (only : Option (List Nat)) (hmark : '\ufeff' ∉ s) (hreturns : Text.ReturnsEnd s) :
    classify o dialect s only ≠ .error .splitCharacter ∧
      ∀ found, classify o dialect s only = .ok found → ∃ t out, read dialect s = .ok t ∧
        strip dialect s = .ok out ∧ ∀ v ∈ found, IsAnchored s out t v := by
  have hhead : s.head? ≠ some '\ufeff' := fun h => hmark (List.mem_of_mem_head? h)
  cases hread : read dialect s with
  | error e =>
    rw [classify_error hread]
    exact ⟨fun h => ne_splitCharacter_of_read hread (Except.error.inj h), nofun⟩
  | ok t =>
    obtain ⟨out, hstrip⟩ : ∃ out, strip dialect s = .ok out := ⟨_, Script.strip_eq hhead hread⟩
    have hhead' : out.head? ≠ some '\ufeff' := by
      intro h
      rcases Script.mem_of_mem_strip hhead hread hstrip (List.mem_of_mem_head? h) with h | h
      · exact absurd h (by decide)
      · exact hmark h
    cases hread' : read dialect out with
    | error e =>
      rw [classify_error_of_strip hstrip hread']
      exact ⟨fun h => ne_splitCharacter_of_read hread' (Except.error.inj h), nofun⟩
    | ok u =>
      have hcs := Script.candidates_eq o u hhead' hread'
      rw [classify_of_candidates hstrip hcs]
      refine ⟨nofun, fun found h => ⟨t, out, rfl, hstrip, fun v hv => ?_⟩⟩
      obtain rfl := Except.ok.inj h
      obtain ⟨c, hc, rfl⟩ := mem_of_mem_reported hv
      obtain ⟨htrimmed, lead, tail, hout, hline⟩ := candidate_spec hhead' hread' hcs hc
      exact isAnchored_of_lineAt hhead hreturns hread hstrip htrimmed hout hline

/-- A script whose lines end in carriage returns and newlines, with a comment before its text. -/
def notice : List Char :=
  "x = /* b */ <p>\r\n  Hello</p>;\r\n".toList

/-- The text is found on the second line. -/
theorem isAnchored_notice : '\ufeff' ∉ notice ∧ Text.ReturnsEnd notice ∧ ∃ found t out,
    classify ⟨[], [], [], []⟩ .markup notice none = .ok found ∧ found = [⟨2, "Hello".toList⟩] ∧
      read .markup notice = .ok t ∧ strip .markup notice = .ok out ∧
      ∀ v ∈ found, IsAnchored notice out t v := by
  have hmark : '\ufeff' ∉ notice := by decide +kernel
  have hreturns : Text.ReturnsEnd notice := by decide +kernel
  have hfound : (classify ⟨[], [], [], []⟩ .markup notice none).toOption =
      some [⟨2, "Hello".toList⟩] := by decide +kernel
  cases h : classify ⟨[], [], [], []⟩ .markup notice none with
  | error => rw [h] at hfound; cases hfound
  | ok found =>
    rw [h] at hfound
    obtain ⟨t, out, hread, hstrip, hanchored⟩ :=
      (isAnchored_of_classify ⟨[], [], [], []⟩ .markup none hmark hreturns).2 found h
    exact ⟨hmark, hreturns, found, t, out, rfl, Option.some.inj hfound, hread, hstrip, hanchored⟩

end Untranslated
