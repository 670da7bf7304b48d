import Untranslated.Proofs.KeptCharacters
import Untranslated.Proofs.RecordedLiterals
import Untranslated.Proofs.Verdicts

/-!
# Reading a stripped script

A classification reads a script twice, the second time without what stripping erases. It fails
exactly if one of the readings does, and with the failure of that reading: no cut falls inside a
character (`classify_eq_error_iff`). The second reading can fail where the first one does not, as
a statement that is erased may be all there is of a statement around it
(`classify_erasedBody`).

* `head?_strip`: stripping leaves no byte order mark at the head of a script.
-/

namespace Untranslated

namespace Text

/-- A cut that passes a character and nothing of what comes after it is right behind it. -/
theorem eq_of_cut {a b pre post : List Char} {c : Char} (h : a ++ b = pre ++ c :: post)
    (hlo : bytes pre < bytes a) (hhi : bytes a ≤ bytes (pre ++ [c])) : b = post := by
  rcases List.append_eq_append_iff.1 h with ⟨more, rfl, -⟩ | ⟨passed, rfl, hrest⟩
  · rw [bytes_append] at hlo
    omega
  · rw [bytes_append] at hlo hhi
    cases passed with
    | nil => simp at hlo
    | cons d passed =>
      obtain ⟨rfl, hpost⟩ := List.cons.inj hrest
      simp only [bytes_append, bytes_cons, bytes_nil] at hhi
      obtain rfl : passed = [] := eq_nil_of_bytes (by omega)
      exact hpost.symm

end Text

namespace Script

open Text (bytes offsets deciding remains eraseBy)

/-- After a line comment comes the end of its line. -/
theorem RunsOut.isLineEnd {before after : List (LeafKind × List Char)} {text rest : List Char}
    (h : RunsOut (before ++ (.trivia .lineComment, text) :: after) rest) :
    ∀ c ∈ (after.flatMap (·.2) ++ rest).head?, isLineEnd c = true := by
  rw [runsOut_append, runsOut_cons] at h
  exact h.2.1 rfl

variable {dialect : Dialect} {s out : List Char} {t : Tree}

/-- **What is kept right after a deleted character ends a line.** -/
theorem isLineEnd_of_deleted (hends : RunsOut t.leaves []) (htext : t.text = s)
    {pre post : List Char} {c d : Char} (hs : s = pre ++ c :: d :: post)
    (hdeleted : Becomes s t (bytes pre) c []) (hkept : IsOutside s t (bytes (pre ++ [c]))) :
    isLineEnd d = true := by
  obtain ⟨lo, hi, comment, hinside⟩ :
      ∃ lo hi, HasComment t .lineComment lo hi ∧ lo ≤ bytes pre ∧ bytes pre < hi := by
    generalize hnil : ([] : List Char) = cs at hdeleted
    cases hdeleted with
    | deleted comment inside => exact ⟨_, _, comment, inside⟩
    | _ => cases hnil
  have hend : hi ≤ bytes (pre ++ [c]) := by
    have hnot := hkept.noComment _ _ _ (.inl rfl) comment
    have hlt : bytes pre ≤ bytes (pre ++ [c]) := by simp
    omega
  obtain ⟨before, text, after, hleaves, hlo, hhi⟩ := comment
  have hsplit : s = before.flatMap (·.2) ++ text ++ after.flatMap (·.2) := by
    rw [← htext, Tree.text, hleaves]
    simp
  have hafter : after.flatMap (·.2) = d :: post := by
    refine Text.eq_of_cut (hsplit.symm.trans hs) ?_ ?_ <;> rw [Text.bytes_append] <;> omega
  rw [hleaves] at hends
  refine hends.isLineEnd d ?_
  rw [hafter]
  rfl

/-- **What stripping leaves has no byte order mark at its head** if the script has none. -/
theorem head?_strip (hmark : s.head? ≠ some '\ufeff') (h : read dialect s = .ok t)
    (hout : strip dialect s = .ok out) : out.head? ≠ some '\ufeff' := by
  intro hhead
  obtain ⟨rest, rfl⟩ := List.head?_eq_some_iff.1 hhead
  have hkeeps := keeps_offsets hmark h
  obtain ⟨before, x, after, hoffsets, hx, hkept, hnil, -⟩ :=
    hkeeps.exists_split (a := []) (by decide) (stripped_eq hmark h hout).symm
  obtain ⟨hs, hlo⟩ := Text.offsets_eq_append hoffsets
  rw [hx] at hs hkept
  obtain rfl | ⟨front, y, rfl⟩ := before.eq_nil_or_concat
  · exact hmark (by rw [hs]; rfl)
  · -- The character before the mark is deleted, so a line comment ends there.
    rw [List.concat_eq_append, List.append_assoc, List.singleton_append] at hoffsets
    rw [List.concat_eq_append] at hs hlo hnil
    have hdeleted : remains (deciding (allRegions s t) y.1) y.2 = [] := by
      simpa using (List.append_eq_nil_iff.1 (List.flatMap_append.symm.trans hnil)).2
    have hnewline : y.2 ≠ '\n' := by
      intro hn
      rcases hkeeps y (by rw [hoffsets]; simp) with ⟨-, hne⟩ | ⟨-, hne⟩ | heq
      · exact hne hn
      · exact hne hn
      · exact absurd (hdeleted.symm.trans heq) (by simp)
    have htext := text_of_read hmark h
    have hy := becomes_of_deciding t y.1 hnewline
    have hmarkKept := becomes_of_deciding t x.1 (c := '\ufeff') (by decide)
    rw [htext] at hy hmarkKept
    rw [hdeleted, (Text.offsets_eq_append hoffsets).2, Nat.zero_add] at hy
    rw [hkept, hlo, Nat.zero_add, List.map_append] at hmarkKept
    rw [List.map_append, List.map_singleton, List.append_assoc, List.singleton_append] at hs
    have hends := runsOut_of_parse (parse_of_read h)
    have hmarkEnds := isLineEnd_of_deleted hends htext hs hy (hmarkKept.isOutside (by decide))
    exact absurd hmarkEnds (by decide)

/-- A script of which nothing is erased stays. -/
theorem strip_of_regions? (h : read dialect s = .ok t) (hregions : regions? s t = some []) :
    strip dialect s = .ok s := by
  have herase : Text.erase s [] = some s := by
    rw [Text.erase_eq fun r hr => absurd hr List.not_mem_nil]
    exact congrArg some (Text.eraseBy_eq_self fun _ _ _ => rfl)
  rw [strip, h]
  simp only [bind, Except.bind, hregions, herase]

end Script

open Script (Dialect Failure read strip regions?)

/-- A script that can be read has candidates. -/
theorem exists_candidates_of_read {o : Options} {dialect : Dialect} {s : List Char}
    {t : Script.Tree} (hmark : s.head? ≠ some '\ufeff') (h : read dialect s = .ok t) :
    ∃ cs, candidates o dialect s = .ok cs :=
  ⟨_, Script.candidates_eq o t hmark h⟩

section Failures

variable (o : Options) (dialect : Dialect) {s : List Char} (only : Option (List Nat))
  (hmark : s.head? ≠ some '\ufeff')

include hmark

/-- A failure is that of one of the readings. -/
theorem read_eq_error_of_classify {e : Failure} (h : classify o dialect s only = .error e) :
    read dialect s = .error e ∨ ∃ out, strip dialect s = .ok out ∧ read dialect out = .error e := by
  cases hread : read dialect s with
  | error e' =>
    rw [classify_error hread] at h
    exact .inl (congrArg _ (Except.error.inj h))
  | ok t =>
    obtain ⟨out, hout⟩ : ∃ out, strip dialect s = .ok out := ⟨_, Script.strip_eq hmark hread⟩
    cases hread' : read dialect out with
    | error e' =>
      rw [classify_error_of_strip hout hread'] at h
      exact .inr ⟨out, hout, hread'.trans (congrArg _ (Except.error.inj h))⟩
    | ok u =>
      obtain ⟨cs, hcs⟩ := exists_candidates_of_read (o := o)
        (Script.head?_strip hmark hread hout) hread'
      rw [classify_of_candidates hout hcs] at h
      cases h

/-- No cut falls inside a character. -/
theorem classify_ne_splitCharacter : classify o dialect s only ≠ .error .splitCharacter := by
  intro h
  rcases read_eq_error_of_classify o dialect only hmark h with hread | ⟨out, -, hread⟩
  · exact ne_splitCharacter_of_read hread rfl
  · exact ne_splitCharacter_of_read hread rfl

/-- **A script is not classified exactly if it cannot be read, or what stripping leaves of it
cannot**; no cut is out of place. Where nothing is erased the script is classified if it can be
read. -/
theorem classify_eq_error_iff :
    (∀ e, classify o dialect s only = .error e ↔ read dialect s = .error e ∨
        ∃ out, strip dialect s = .ok out ∧ read dialect out = .error e) ∧
      classify o dialect s only ≠ .error .splitCharacter ∧
      ∀ t, read dialect s = .ok t → regions? s t = some [] →
        ∃ found, classify o dialect s only = .ok found := by
  refine ⟨fun e => ⟨read_eq_error_of_classify o dialect only hmark, ?_⟩,
    classify_ne_splitCharacter o dialect only hmark, fun t hread hregions => ?_⟩
  · rintro (hread | ⟨out, hout, hread⟩)
    · exact classify_error hread
    · exact classify_error_of_strip hout hread
  · obtain ⟨cs, hcs⟩ := exists_candidates_of_read (o := o) hmark hread
    exact ⟨_, classify_of_candidates (Script.strip_of_regions? hread hregions) hcs⟩

end Failures

/-- A script whose last statement is a condition on bringing in a module. -/
def erasedBody : List Char :=
  "<p>Hello</p>;\nif (x) require('a');\n".toList

/-- Stripping leaves the condition without a statement, and the text above it is not reported. -/
theorem classify_erasedBody : (read .typedMarkup erasedBody).isOk = true ∧
    ∃ out, strip .typedMarkup erasedBody = .ok out ∧
      out = "<p>Hello</p>;\nif (x)              \n".toList ∧
      (read .typedMarkup out).isOk = false ∧
      (classify ⟨[], [], [], []⟩ .typedMarkup erasedBody none).isOk = false := by
  have hstripped : (strip .typedMarkup erasedBody).toOption =
      some "<p>Hello</p>;\nif (x)              \n".toList := by decide +kernel
  cases hout : strip .typedMarkup erasedBody with
  | error => rw [hout] at hstripped; cases hstripped
  | ok out =>
    rw [hout] at hstripped
    obtain rfl : out = _ := Option.some.inj hstripped
    exact ⟨by decide +kernel, _, rfl, rfl, by decide +kernel, by decide +kernel⟩

/-- The failure is that of the second reading. -/
theorem exists_failure_erasedBody : erasedBody.head? ≠ some '\ufeff' ∧
    ∃ out e, strip .typedMarkup erasedBody = .ok out ∧ read .typedMarkup out = .error e ∧
      classify ⟨[], [], [], []⟩ .typedMarkup erasedBody none = .error e := by
  have hmark : erasedBody.head? ≠ some '\ufeff' := by decide +kernel
  have hfails : ((strip .typedMarkup erasedBody).toOption.map fun out =>
      (read .typedMarkup out).isOk) = some false := by decide +kernel
  cases hout : strip .typedMarkup erasedBody with
  | error => rw [hout] at hfails; cases hfails
  | ok out =>
    rw [hout] at hfails
    cases hread : read .typedMarkup out with
    | ok t => simp [Except.toOption, hread, Except.isOk, Except.toBool] at hfails
    | error e =>
      have h := (classify_eq_error_iff ⟨[], [], [], []⟩ .typedMarkup none hmark).1 e
      exact ⟨hmark, out, e, rfl, hread, h.2 (.inr ⟨out, hout, hread⟩)⟩

end Untranslated
