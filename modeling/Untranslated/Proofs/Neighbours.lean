import Mathlib.Data.List.TakeWhile
import Untranslated.Proofs.Anchors
import Untranslated.Proofs.Patterns
import Untranslated.Rule.Programmatic

/-!
# What stands next to a literal

Two rules on texts for programs look at the characters around a literal: what it is thrown or
looked up by, and a sign that compares it. They are told from the few characters that are next to
it, blanks aside (`ToldNear`). So a gap changes nothing in them as long as seven characters that
are no blanks are in sight (`ToldNear.context_iff`).

* `isTakenBefore`, `isTakenAfter`: what is asked about the text before and after a literal.
* `contextBefore`, `contextAfter`: the text that is seen around a literal.
* `Shows`: enough of a text is in sight.
-/

namespace Untranslated

open Text (CharClass Pattern isBlank isWordChar trim trimStart trimEnd)

/-! ### Characters -/

/-- The code points of all blanks. -/
def blankCodes : List Nat :=
  [9, 10, 11, 12, 13, 32, 0x85, 0xa0, 0x1680, 0x2000, 0x2001, 0x2002, 0x2003, 0x2004, 0x2005,
   0x2006, 0x2007, 0x2008, 0x2009, 0x200a, 0x2028, 0x2029, 0x202f, 0x205f, 0x3000]

theorem mem_blankCodes {c : Char} (h : isBlank c = true) : c.toNat ∈ blankCodes := by
  simp only [isBlank, Text.inRanges, Text.blankRanges, List.any_cons, List.any_nil, Bool.or_eq_true,
    Bool.and_eq_true, beq_iff_eq, decide_eq_true_eq, Bool.or_false] at h
  simp only [blankCodes, List.mem_cons, List.not_mem_nil, or_false]
  rcases h with (rfl | h) | h
  · decide
  · omega
  · omega

/-- A character of a name. -/
def isNameChar (c : Char) : Bool :=
  (CharClass.union .word (.among ['$'])).contains c

/-- The last character of what something is looked up in. -/
def isObjectEnd (c : Char) : Bool :=
  (CharClass.union .word (.among "$])".toList)).contains c

/-- No blank belongs to a name, or ends what something is looked up in. -/
theorem isNameChar_of_isBlank {c : Char} (h : isBlank c = true) :
    isNameChar c = false ∧ isObjectEnd c = false := by
  have hall : ∀ n ∈ blankCodes, isWordChar (Char.ofNat n) = false := by decide +kernel
  have hword := hall c.toNat (mem_blankCodes h)
  rw [Char.ofNat_toNat] at hword
  have hnot : c ≠ '$' ∧ c ≠ ']' ∧ c ≠ ')' := by
    refine ⟨?_, ?_, ?_⟩ <;> rintro rfl <;> exact absurd h (by decide)
  simp [isNameChar, isObjectEnd, CharClass.contains, hword, hnot]

/-! ### What stands before a literal -/

/-- What stands right before a literal tells that it is thrown, a case, looked up or compared. -/
def isTakenBefore (before : List Char) : Bool :=
  thrownHead.accepts before || lookupHead.accepts before ||
    comparisons.any (·.isSuffixOf before)

/-- **The same told from the text read backwards.** -/
inductive Takes : List Char → Prop
  | equal (rest : List Char) : Takes ('=' :: '=' :: rest)
  | unequal (rest : List Char) : Takes ('=' :: '!' :: rest)
  | lookup (blanks : List Char) (c : Char) (rest : List Char) (hblanks : ∀ b ∈ blanks, isBlank b)
      (hc : isObjectEnd c = true) : Takes ('[' :: (blanks ++ c :: rest))
  | word (w rest : List Char) (hw : w ∈ ["worht".toList, "esac".toList])
      (hrest : ∀ c ∈ rest.head?, isNameChar c = false) : Takes (w ++ rest)

theorem thrownHead_iff {s : List Char} : thrownHead.accepts s = true ↔
    ∃ u v, s = u ++ v ∧ (∀ c ∈ u.getLast?, isNameChar c = false) ∧
      v ∈ ["throw".toList, "case".toList] := by
  have hword : ∀ v, (Pattern.anyOf [.literal "throw", .literal "case"]).Matches v ↔
      v ∈ ["throw".toList, "case".toList] := by
    intro v
    simp only [Pattern.anyOf, List.foldr_cons, List.foldr_nil, Pattern.Matches,
      Pattern.matches_literal, List.mem_cons, List.not_mem_nil]
  have hhead : ∀ u, (Pattern.optional (.atTail
      (.one (.except (.union .word (.among ['$'])))))).Matches u ↔
        ∀ c ∈ u.getLast?, isNameChar c = false := by
    intro u
    rw [Pattern.optional, Pattern.Matches, Pattern.matches_atTail]
    constructor
    · rintro (⟨front, last, rfl, c, rfl, hc⟩ | rfl)
      · simpa [isNameChar, CharClass.contains] using hc
      · simp
    · intro hlast
      obtain rfl | ⟨front, c, rfl⟩ := u.eq_nil_or_concat
      · exact .inr rfl
      · rw [List.concat_eq_append] at hlast ⊢
        refine .inl ⟨front, [c], rfl, c, rfl, ?_⟩
        have hc := hlast c (by simp)
        simpa [isNameChar, CharClass.contains] using hc
  rw [Pattern.accepts_iff, thrownHead, Pattern.inRow]
  simp only [List.foldr_cons, List.foldr_nil]
  constructor
  · rintro ⟨u, v, rfl, hu, w, e, rfl, hw, rfl⟩
    exact ⟨u, w, by simp, (hhead u).1 hu, (hword w).1 hw⟩
  · rintro ⟨u, v, rfl, hu, hv⟩
    exact ⟨u, v, rfl, (hhead u).2 hu, v, [], by simp, (hword v).2 hv, rfl⟩

theorem lookupHead_iff {s : List Char} : lookupHead.accepts s = true ↔
    ∃ u c blanks, s = u ++ c :: (blanks ++ ['[']) ∧ (∀ b ∈ blanks, isBlank b = true) ∧
      isObjectEnd c = true := by
  rw [Pattern.accepts_iff, lookupHead, Pattern.matches_atTail]
  simp only [Pattern.inRow, List.foldr_cons, List.foldr_nil]
  constructor
  · rintro ⟨u, v, rfl, _, _, rfl, ⟨c, rfl, hc⟩, blanks, _, rfl, hblanks, sign, _, rfl, hsign, rfl⟩
    obtain rfl := Pattern.matches_literal.1 hsign
    exact ⟨u, c, blanks, rfl, Pattern.matches_star_one.1 hblanks, hc⟩
  · rintro ⟨u, c, blanks, rfl, hblanks, hc⟩
    refine ⟨u, c :: (blanks ++ ['[']), rfl, [c], blanks ++ ['['], rfl, ⟨c, rfl, hc⟩, blanks, ['['],
      rfl, Pattern.matches_star_one.2 hblanks, ['['], [], rfl, ?_, rfl⟩
    exact Pattern.matches_literal.2 rfl

theorem comparisons_iff {s : List Char} : comparisons.any (·.isSuffixOf s) = true ↔
    ∃ u, s = u ++ ['=', '='] ∨ s = u ++ ['!', '='] := by
  have hall : comparisons = [['=', '=', '='], ['!', '=', '='], ['=', '='], ['!', '=']] := rfl
  simp only [hall, List.any_cons, List.any_nil, Bool.or_false, Bool.or_eq_true,
    List.isSuffixOf_iff_suffix]
  constructor
  · rintro (⟨u, rfl⟩ | ⟨u, rfl⟩ | ⟨u, rfl⟩ | ⟨u, rfl⟩)
    · exact ⟨u ++ ['='], .inl (by simp)⟩
    · exact ⟨u ++ ['!'], .inl (by simp)⟩
    · exact ⟨u, .inl rfl⟩
    · exact ⟨u, .inr rfl⟩
  · rintro ⟨u, rfl | rfl⟩
    · exact .inr (.inr (.inl ⟨u, rfl⟩))
    · exact .inr (.inr (.inr ⟨u, rfl⟩))

/-- **What the patterns say of the text before a literal, told backwards.** -/
theorem isTakenBefore_iff {s : List Char} : isTakenBefore s = true ↔ Takes s.reverse := by
  unfold isTakenBefore
  rw [Bool.or_eq_true, Bool.or_eq_true, thrownHead_iff, lookupHead_iff, comparisons_iff]
  constructor
  · rintro ((⟨u, v, rfl, hu, hv⟩ | ⟨u, c, blanks, rfl, hblanks, hc⟩) | ⟨u, rfl | rfl⟩)
    · rw [List.reverse_append]
      refine .word _ _ ?_ ?_
      · rcases List.mem_cons.1 hv with rfl | hv
        · decide
        · obtain rfl := List.mem_singleton.1 hv
          decide
      · rwa [List.head?_reverse]
    · have hback : (u ++ c :: (blanks ++ ['['])).reverse =
          '[' :: (blanks.reverse ++ c :: u.reverse) := by simp
      rw [hback]
      exact .lookup _ c _ (fun b hb => hblanks b (List.mem_reverse.1 hb)) hc
    · rw [List.reverse_append]
      exact .equal _
    · rw [List.reverse_append]
      exact .unequal _
  · intro h
    generalize hback : s.reverse = r at h
    obtain rfl : s = r.reverse := by rw [← hback, List.reverse_reverse]
    cases h with
    | equal rest => exact .inr ⟨rest.reverse, .inl (by simp)⟩
    | unequal rest => exact .inr ⟨rest.reverse, .inr (by simp)⟩
    | lookup blanks c rest hblanks hc =>
      refine .inl (.inr ⟨rest.reverse, c, blanks.reverse, by simp, ?_, hc⟩)
      exact fun b hb => hblanks b (List.mem_reverse.1 hb)
    | word w rest hw hrest =>
      refine .inl (.inl ⟨rest.reverse, w.reverse, by simp, ?_, ?_⟩)
      · rwa [List.getLast?_reverse]
      · rcases List.mem_cons.1 hw with rfl | hw
        · decide
        · obtain rfl := List.mem_singleton.1 hw
          decide

/-! ### What tells it is near -/

/-- A text that goes on as `s` is not cut in a name, or in a sign that compares, after `last`. -/
structure Parts (last : Char) (s : List Char) : Prop where
  name : isNameChar last = true → ∀ c ∈ s.head?, isNameChar c = false
  sign : last = '=' → ∀ c ∈ s.head?, c ≠ '=' ∧ c ≠ '!'

theorem Parts.of_isBlank {last : Char} {s : List Char} (h : ∀ c ∈ s.head?, isBlank c = true) :
    Parts last s where
  name _ c hc := (isNameChar_of_isBlank (h c hc)).1
  sign _ c hc := by
    have hblank := h c hc
    constructor
    · rintro rfl
      exact absurd hblank (by decide)
    · rintro rfl
      exact absurd hblank (by decide)

theorem word_spec {w : List Char} (hw : w ∈ ["worht".toList, "esac".toList]) :
    w.length ≤ 5 ∧ ∀ c ∈ w, isNameChar c = true := by
  rw [← List.all_eq_true]
  rcases List.mem_cons.1 hw with rfl | hw
  · decide +kernel
  · obtain rfl := List.mem_singleton.1 hw
    decide +kernel

theorem exists_of_head?_dropWhile {s : List Char} {c : Char}
    (h : (s.dropWhile isBlank).head? = some c) :
    ∃ blanks rest, s = blanks ++ c :: rest ∧ ∀ b ∈ blanks, isBlank b = true := by
  obtain ⟨rest, hrest⟩ := List.head?_eq_some_iff.1 h
  refine ⟨s.takeWhile isBlank, rest, ?_, fun b hb => List.mem_takeWhile_imp hb⟩
  rw [← hrest, List.takeWhile_append_dropWhile]

section Congr

variable {near far far' : List Char}

/-- What something is looked up in is told by the first character that is no blank. -/
theorem Takes.congr_lookup {blanks : List Char} {c : Char} {rest : List Char}
    (hblanks : ∀ b ∈ blanks, isBlank b = true) (hc : isObjectEnd c = true)
    (htext : near ++ far = blanks ++ c :: rest)
    (hfar : (∃ c ∈ near, isBlank c = false) ∨
      (far.dropWhile isBlank).head? = (far'.dropWhile isBlank).head?) :
    Takes ('[' :: (near ++ far')) := by
  have hcblank : isBlank c = false := by
    rw [Bool.eq_false_iff]
    intro hblank
    rw [(isNameChar_of_isBlank hblank).2] at hc
    cases hc
  by_cases hseen : ∃ c ∈ near, isBlank c = false
  · -- Then `c` is in `near`, as it is the first of these characters.
    obtain ⟨d, hd, hdblank⟩ := hseen
    have hnot : d ∉ blanks := fun hmem => by
      rw [hblanks d hmem] at hdblank
      cases hdblank
    rcases List.append_eq_append_iff.1 htext with ⟨more, hmore, -⟩ | ⟨more, hmore, hfar⟩
    · exact absurd (hmore ▸ List.mem_append_left _ hd) hnot
    · cases more with
      | nil => exact absurd (by simpa [hmore] using hd) hnot
      | cons e more =>
        obtain ⟨rfl, -⟩ := List.cons.inj hfar
        rw [hmore, List.append_assoc]
        exact .lookup blanks c _ hblanks hc
  · have hall : ∀ b ∈ near, isBlank b = true := by
      intro b hb
      by_contra hnot
      exact hseen ⟨b, hb, by simpa using hnot⟩
    have hhead : (far'.dropWhile isBlank).head? = some c := by
      rw [← hfar.resolve_left hseen, ← List.dropWhile_append_of_pos hall, htext,
        List.dropWhile_append_of_pos hblanks, List.dropWhile_cons_of_neg (by simp [hcblank])]
      rfl
    obtain ⟨blanks', rest', rfl, hblanks'⟩ := exists_of_head?_dropWhile hhead
    rw [← List.append_assoc]
    refine .lookup (near ++ blanks') c rest' (fun b hb => ?_) hc
    exact (List.mem_append.1 hb).elim (hall b) (hblanks' b)

/-- A word is told by its five letters and the end of the name that they are. -/
theorem Takes.congr_word {first : Char} {w rest : List Char}
    (hw : w ∈ ["worht".toList, "esac".toList])
    (hrest : ∀ c ∈ rest.head?, isNameChar c = false) (htext : first :: near ++ far = w ++ rest)
    (hnear : 5 ≤ near.length ∨
      ∀ last ∈ (first :: near).getLast?, Parts last far ∧ Parts last far') :
    Takes (first :: near ++ far') := by
  obtain ⟨hlength, hname⟩ := word_spec hw
  -- A word that `near` does not go on after ends where `near` does.
  have hends : ∀ more, w = first :: near ++ more → far = more ++ rest →
      Takes (first :: near ++ far') := by
    rintro more rfl rfl
    have hshort : ¬5 ≤ near.length := by
      simp only [List.length_append, List.length_cons] at hlength
      omega
    have hparts := hnear.resolve_left hshort
    obtain ⟨last, hlast⟩ : ∃ last, (first :: near).getLast? = some last := by
      simp [List.getLast?_cons]
    have hlastName := hname last (List.mem_append_left _ (List.mem_of_getLast? hlast))
    cases more with
    | nil =>
      rw [List.append_nil] at hw
      exact .word _ far' hw ((hparts last hlast).2.name hlastName)
    | cons d more =>
      have hd := hname d (by simp)
      rw [(hparts last hlast).1.name hlastName d rfl] at hd
      cases hd
  rcases List.append_eq_append_iff.1 htext with ⟨more, hmore, hfar⟩ | ⟨more, hmore, hmrest⟩
  · exact hends more hmore hfar
  · cases more with
    | nil => exact hends [] (by simpa using hmore.symm) (by simpa using hmrest.symm)
    | cons d more =>
      rw [hmore, List.append_assoc]
      refine .word w _ hw ?_
      rw [hmrest] at hrest
      exact hrest

/-- **What a text tells stays when what follows it changes**, if six of its characters are there or
it ends between two tokens, and if the first character that follows and is no blank is the same or
there is one in the text after its first. -/
theorem Takes.congr {first : Char} (h : Takes (first :: near ++ far))
    (hnear : 5 ≤ near.length ∨ ∀ last ∈ (first :: near).getLast?, Parts last far ∧ Parts last far')
    (hfar : (∃ c ∈ near, isBlank c = false) ∨
      (far.dropWhile isBlank).head? = (far'.dropWhile isBlank).head?) :
    Takes (first :: near ++ far') := by
  generalize htext : first :: near ++ far = s at h
  cases h with
  | equal rest =>
    obtain ⟨rfl, hrest⟩ := List.cons.inj htext
    cases near with
    | nil =>
      have hparts := (hnear.resolve_left (by simp) _ rfl).1
      obtain rfl : far = '=' :: rest := hrest
      exact absurd rfl (hparts.sign rfl '=' rfl).1
    | cons d near =>
      obtain ⟨rfl, -⟩ := List.cons.inj hrest
      exact .equal _
  | unequal rest =>
    obtain ⟨rfl, hrest⟩ := List.cons.inj htext
    cases near with
    | nil =>
      have hparts := (hnear.resolve_left (by simp) _ rfl).1
      obtain rfl : far = '!' :: rest := hrest
      exact absurd rfl (hparts.sign rfl '!' rfl).2
    | cons d near =>
      obtain ⟨rfl, -⟩ := List.cons.inj hrest
      exact .unequal _
  | lookup blanks c rest hblanks hc =>
    obtain ⟨rfl, hrest⟩ := List.cons.inj htext
    exact .congr_lookup hblanks hc hrest hfar
  | word w rest hw hrest => exact .congr_word hw hrest htext hnear

end Congr

/-! ### What stands after a literal -/

/-- What stands right after a literal tells that it is compared. -/
def isTakenAfter (after : List Char) : Bool :=
  comparisons.any (·.isPrefixOf after)

/-- The text begins with a sign that compares. -/
inductive Compares : List Char → Prop
  | equal (rest : List Char) : Compares ('=' :: '=' :: rest)
  | unequal (rest : List Char) : Compares ('!' :: '=' :: rest)

theorem isTakenAfter_iff {s : List Char} : isTakenAfter s = true ↔ Compares s := by
  have hall : comparisons = [['=', '=', '='], ['!', '=', '='], ['=', '='], ['!', '=']] := rfl
  simp only [isTakenAfter, hall, List.any_cons, List.any_nil, Bool.or_false, Bool.or_eq_true,
    List.isPrefixOf_iff_prefix]
  constructor
  · rintro (⟨u, rfl⟩ | ⟨u, rfl⟩ | ⟨u, rfl⟩ | ⟨u, rfl⟩)
    · exact .equal _
    · exact .unequal _
    · exact .equal _
    · exact .unequal _
  · rintro (⟨rest⟩ | ⟨rest⟩)
    · exact .inr (.inr (.inl ⟨rest, rfl⟩))
    · exact .inr (.inr (.inr ⟨rest, rfl⟩))

/-- What the rule on texts for programs asks of a candidate. -/
theorem Candidate.isProgrammatic_eq (c : Candidate) : c.isProgrammatic =
    (c.tag.any (fun tag => queryTags.contains tag || "styled.".toList.isPrefixOf tag.toList) ||
      c.callee.any isSilentCallee || isTakenBefore c.before || isTakenAfter c.after) := by
  simp only [Candidate.isProgrammatic, isTakenBefore, isTakenAfter, Bool.or_assoc]

/-- A text that goes on as `s` is not cut in a sign that compares after `last`. -/
def EndsSign (last : Char) (s : List Char) : Prop :=
  last = '=' ∨ last = '!' → ∀ c ∈ s.head?, c ≠ '='

/-! ### What is told near the head of a text -/

/-- What `T` says of a text is told near its head: it is not up to what comes behind `first` and
`near`, if `near` has five characters or the text may be cut there, and if one of them is no blank
or the first one behind them that is none stays the same. -/
structure ToldNear (T : List Char → Prop) (Cut : Char → List Char → Prop) : Prop where
  congr {first : Char} {near far far' : List Char} : T (first :: near ++ far) →
    (5 ≤ near.length ∨ ∀ last ∈ (first :: near).getLast?, Cut last far ∧ Cut last far') →
    ((∃ c ∈ near, isBlank c = false) ∨
      (far.dropWhile isBlank).head? = (far'.dropWhile isBlank).head?) → T (first :: near ++ far')
  blank {last : Char} {far : List Char} : (∀ c ∈ far.head?, isBlank c = true) → Cut last far

theorem toldNear_takes : ToldNear Takes Parts where
  congr := Takes.congr
  blank := .of_isBlank

theorem toldNear_compares : ToldNear Compares EndsSign where
  congr := by
    intro first near far far' h hnear _
    rw [List.cons_append] at h ⊢
    cases near with
    | nil =>
      have hcut := (hnear.resolve_left (by simp) first rfl).1
      rw [List.nil_append] at h
      cases h with
      | equal rest => exact absurd rfl (hcut (.inl rfl) '=' rfl)
      | unequal rest => exact absurd rfl (hcut (.inr rfl) '=' rfl)
    | cons d near =>
      rw [List.cons_append] at h ⊢
      cases h with
      | equal rest => exact .equal _
      | unequal rest => exact .unequal _
  blank := by
    rintro last far h - c hc rfl
    exact absurd (h '=' hc) (by decide)

section ToldNear

variable {T : List Char → Prop} {Cut : Char → List Char → Prop} (hT : ToldNear T Cut)

include hT

/-- Blanks after a text tell nothing. -/
theorem ToldNear.append_blanks {first : Char} (near : List Char) {blanks : List Char}
    (h : ∀ b ∈ blanks, isBlank b = true) : T (first :: near ++ blanks) ↔ T (first :: near) := by
  have hend : (blanks.dropWhile isBlank).head? = (([] : List Char).dropWhile isBlank).head? := by
    rw [List.dropWhile_eq_nil_iff.2 h]
    rfl
  have hcut : ∀ last : Char, Cut last blanks ∧ Cut last [] := fun last =>
    ⟨hT.blank fun c hc => h c (List.mem_of_mem_head? hc), hT.blank nofun⟩
  constructor
  · intro htold
    have htold := hT.congr htold (.inr fun last _ => hcut last) (.inr hend)
    rwa [List.append_nil] at htold
  · intro htold
    rw [← List.append_nil (first :: near)] at htold
    exact hT.congr htold (.inr fun last _ => (hcut last).symm) (.inr hend.symm)

/-- Blanks at both ends of a text tell nothing. -/
theorem ToldNear.dropWhile_iff {lead kept tail : List Char} (hlead : ∀ b ∈ lead, isBlank b = true)
    (htail : ∀ b ∈ tail, isBlank b = true) (hkept : ∀ c ∈ kept.head?, isBlank c = false) :
    T ((lead ++ (kept ++ tail)).dropWhile isBlank) ↔ T kept := by
  rw [List.dropWhile_append_of_pos hlead]
  cases kept with
  | nil => rw [List.nil_append, List.dropWhile_eq_nil_iff.2 htail]
  | cons first near =>
    rw [List.cons_append, List.dropWhile_cons_of_neg (by simp [hkept first rfl]),
      ← List.cons_append]
    exact hT.append_blanks near htail

end ToldNear

/-! ### What the rules see around a literal -/

/-- The text before a literal that the rules see; it comes in reverse, nearest first. -/
def contextBefore (behind : List Char) : List Char :=
  trim (behind.take contextLength).reverse

/-- The text after a literal that the rules see. -/
def contextAfter (after : List Char) : List Char :=
  trim (after.take contextLength)

/-- A text shows what stands next to a literal in the part of it that the rules see: all of it is
seen, or seven characters that are no blanks. -/
def Shows (s : List Char) : Prop :=
  s.length ≤ contextLength ∨ 7 ≤ (s.take contextLength).countP fun c => !isBlank c

/-- Trimming takes blanks off both ends, and no more are left there. -/
theorem exists_trim_blanks (s : List Char) : ∃ lead tail, s = lead ++ (trim s ++ tail) ∧
    (∀ b ∈ lead, isBlank b = true) ∧ (∀ b ∈ tail, isBlank b = true) ∧
      (∀ c ∈ (trim s).head?, isBlank c = false) ∧ ∀ c ∈ (trim s).getLast?, isBlank c = false := by
  obtain ⟨tail, hs, htail⟩ := Text.exists_trimEnd (trimStart s)
  refine ⟨s.takeWhile isBlank, tail, ?_, fun b hb => List.mem_takeWhile_imp hb, htail, ?_, ?_⟩
  · rw [trim, ← hs, trimStart, List.takeWhile_append_dropWhile]
  · intro c hc
    exact (Text.isTrimmed_trim (List.ne_nil_of_mem (List.mem_of_mem_head? hc))).head c hc
  · exact fun c hc => Text.isBlank_of_mem_getLast?_trimEnd hc

/-- What is seen after a literal tells whether it is compared. -/
theorem isTakenAfter_contextAfter (s : List Char) : isTakenAfter (contextAfter s) = true ↔
    Compares ((s.take contextLength).dropWhile isBlank) := by
  rw [isTakenAfter_iff, contextAfter]
  generalize s.take contextLength = seen
  obtain ⟨lead, tail, hseen, hlead, htail, hhead, -⟩ := exists_trim_blanks seen
  have hiff := toldNear_compares.dropWhile_iff hlead htail hhead
  rw [← hseen] at hiff
  exact hiff.symm

/-- What is seen before a literal tells whether it is thrown, a case, looked up or compared. -/
theorem isTakenBefore_contextBefore (s : List Char) : isTakenBefore (contextBefore s) = true ↔
    Takes ((s.take contextLength).dropWhile isBlank) := by
  rw [isTakenBefore_iff, contextBefore]
  generalize s.take contextLength = seen
  obtain ⟨lead, tail, hseen, hlead, htail, -, hlast⟩ := exists_trim_blanks seen.reverse
  have hback : seen = tail.reverse ++ ((trim seen.reverse).reverse ++ lead.reverse) := by
    rw [← List.reverse_append, ← List.reverse_append, List.append_assoc, ← hseen,
      List.reverse_reverse]
  have hiff := toldNear_takes.dropWhile_iff (fun b hb => htail b (List.mem_reverse.1 hb))
    (fun b hb => hlead b (List.mem_reverse.1 hb)) (by rwa [List.head?_reverse])
  rw [← hback] at hiff
  exact hiff.symm

/-- A text either is blank or has a first character that is not. -/
theorem blank_or_exists_first (s : List Char) : (∀ b ∈ s, isBlank b = true) ∨
    ∃ blanks first rest, s = blanks ++ first :: rest ∧ (∀ b ∈ blanks, isBlank b = true) ∧
      isBlank first = false := by
  cases hs : s.dropWhile isBlank with
  | nil => exact .inl (List.dropWhile_eq_nil_iff.1 hs)
  | cons first rest =>
    refine .inr ⟨s.takeWhile isBlank, first, rest, ?_, fun b hb => List.mem_takeWhile_imp hb, ?_⟩
    · rw [← hs, List.takeWhile_append_dropWhile]
    · exact Text.isBlank_of_mem_head?_trimStart (s := s) (by rw [trimStart, hs]; rfl)

/-- Blanks are none of the characters that a text has to show. -/
theorem countP_blanks {blanks : List Char} (h : ∀ b ∈ blanks, isBlank b = true) :
    blanks.countP (fun c => !isBlank c) = 0 :=
  List.countP_eq_zero.2 fun b hb => by simp [h b hb]

section Gap

variable {T : List Char → Prop} {Cut : Char → List Char → Prop} (hT : ToldNear T Cut)

include hT

/-- **A text that shows enough tells in the part that is seen what it tells.** -/
theorem ToldNear.take_iff {s : List Char} (h : Shows s) :
    T ((s.take contextLength).dropWhile isBlank) ↔ T (s.dropWhile isBlank) := by
  rcases h with h | h
  · rw [List.take_of_length_le h]
  · have hs := List.take_append_drop contextLength s
    generalize s.take contextLength = seen at h hs
    generalize s.drop contextLength = unseen at hs
    subst hs
    rcases blank_or_exists_first seen with hblank | ⟨blanks, first, near, rfl, hblanks, hfirst⟩
    · rw [countP_blanks hblank] at h
      omega
    · -- Six of the seven characters come after the first.
      rw [List.countP_append, countP_blanks hblanks,
        List.countP_cons_of_pos (by simp [hfirst])] at h
      have hlength : 5 ≤ near.length := by
        have hle := List.countP_le_length (p := fun c => !isBlank c) (l := near)
        omega
      have hsecond : ∃ c ∈ near, isBlank c = false := by
        have hpos : 0 < near.countP fun c => !isBlank c := by omega
        obtain ⟨c, hc, hnot⟩ := List.countP_pos_iff.1 hpos
        exact ⟨c, hc, by simpa using hnot⟩
      rw [List.append_assoc, List.dropWhile_append_of_pos hblanks,
        List.dropWhile_append_of_pos hblanks, List.cons_append,
        List.dropWhile_cons_of_neg (by simp [hfirst]),
        List.dropWhile_cons_of_neg (by simp [hfirst]), ← List.cons_append]
      constructor
      · intro htold
        rw [← List.append_nil (first :: near)] at htold
        exact hT.congr htold (.inl hlength) (.inl hsecond)
      · intro htold
        have htold := @hT.congr first near _ [] htold (.inl hlength) (.inl hsecond)
        rwa [List.append_nil] at htold

/-- **A gap tells nothing**, where the text may be cut. -/
theorem ToldNear.gap_iff {near gap far : List Char} (hgap : ∀ b ∈ gap, isBlank b = true)
    (hcut : ∀ last ∈ near.getLast?, Cut last far) :
    T ((near ++ (gap ++ far)).dropWhile isBlank) ↔ T ((near ++ far).dropWhile isBlank) := by
  have hfar : ((gap ++ far).dropWhile isBlank).head? = (far.dropWhile isBlank).head? := by
    rw [List.dropWhile_append_of_pos hgap]
  rcases blank_or_exists_first near with hblank | ⟨blanks, first, near, rfl, hblanks, hfirst⟩
  · rw [List.dropWhile_append_of_pos hblank, List.dropWhile_append_of_pos hblank,
      List.dropWhile_append_of_pos hgap]
  · have hparts : ∀ last ∈ (first :: near).getLast?, Cut last (gap ++ far) ∧ Cut last far := by
      intro last hlast
      have hfarCut := hcut last (by
        rw [List.getLast?_append_of_ne_nil _ (List.cons_ne_nil first near)]
        exact hlast)
      refine ⟨?_, hfarCut⟩
      cases gap with
      | nil => exact hfarCut
      | cons b gap =>
        refine hT.blank fun c hc => ?_
        obtain rfl : b = c := by simpa using hc
        exact hgap b List.mem_cons_self
    simp only [List.append_assoc]
    rw [List.dropWhile_append_of_pos hblanks, List.dropWhile_append_of_pos hblanks,
      List.cons_append, List.cons_append, List.dropWhile_cons_of_neg (by simp [hfirst]),
      List.dropWhile_cons_of_neg (by simp [hfirst]), ← List.cons_append, ← List.cons_append]
    constructor
    · exact fun htold => hT.congr htold (.inr hparts) (.inr hfar)
    · exact fun htold => hT.congr htold (.inr fun last hlast => (hparts last hlast).symm)
        (.inr hfar.symm)

omit hT in
/-- A text with a gap shows no more than without it. -/
theorem Shows.of_gap {near gap far : List Char} (hgap : ∀ b ∈ gap, isBlank b = true)
    (h : Shows (near ++ (gap ++ far))) : Shows (near ++ far) := by
  rcases h with h | h
  · simp only [List.length_append] at h
    exact .inl (by rw [List.length_append]; omega)
  · refine .inr (h.trans ?_)
    have hgapSeen : ∀ b ∈ gap.take (contextLength - near.length), isBlank b = true :=
      fun b hb => hgap b (List.mem_of_mem_take hb)
    rw [List.take_append, List.take_append, List.take_append, List.countP_append,
      List.countP_append, List.countP_append, countP_blanks hgapSeen, Nat.zero_add]
    refine Nat.add_le_add_left (List.Sublist.countP_le ?_) _
    exact (List.take_prefix_take_left (by omega)).sublist

/-- **What is seen of a text with a gap tells what was seen without it**, if it shows enough or the
gap is out of sight. -/
theorem ToldNear.context_iff {near gap far : List Char} (hgap : ∀ b ∈ gap, isBlank b = true)
    (hcut : ∀ last ∈ near.getLast?, Cut last far)
    (view : contextLength ≤ near.length ∨ Shows (near ++ (gap ++ far))) :
    T (((near ++ (gap ++ far)).take contextLength).dropWhile isBlank) ↔
      T (((near ++ far).take contextLength).dropWhile isBlank) := by
  rcases view with hlength | hshows
  · rw [List.take_append_of_le_length hlength, List.take_append_of_le_length hlength]
  · rw [hT.take_iff hshows, hT.take_iff (hshows.of_gap hgap), hT.gap_iff hgap hcut]

end Gap

end Untranslated
