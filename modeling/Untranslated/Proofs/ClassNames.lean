import Mathlib.Data.List.Basic
import Untranslated.Proofs.Patterns
import Untranslated.Rule.ClassList

/-!
# Class names by their parts

The pattern of class names repeats, one behind the other, texts that share dashes, digits and
brackets. It still tells no more than two plain cuts do: at colons, which leave variants and a name,
and at dashes and slashes, which leave a word and pieces of the name. So a list of class names is
known by its words, in whatever order they come.

* `words_append_blank`: the words of a text that is cut at a blank.
* `IsClassName`: a class name told by its cuts; `accepts_className_iff` says that the pattern means
  just this.
* `IsClassList`: a list of class names.
* `looksLikeClassList_iff_words`: **what is taken for a class list, and how lists go together**.
-/

namespace Untranslated

open Text (CharClass Pattern isBlank words wordsFrom)

/-! ### Words -/

theorem wordsFrom_eq (word text : List Char) :
    wordsFrom word text = (text.splitOnPPrepend isBlank word).filter (!·.isEmpty) := by
  induction text generalizing word with
  | nil =>
    rw [wordsFrom, List.splitOnPPrepend_nil]
    cases word <;> simp
  | cons c text ih =>
    rw [wordsFrom, List.splitOnPPrepend_cons_eq_if]
    split_ifs with hc hword
    · rw [List.isEmpty_iff.1 hword, ih]
      rfl
    · rw [ih, List.splitOnPPrepend_nil_right, List.filter_cons_of_pos]
      simpa using hword
    · exact ih (c :: word)

/-- The words of a text are what is left of it between blanks. -/
theorem words_eq (text : List Char) : words text = (text.splitOnP isBlank).filter (!·.isEmpty) :=
  wordsFrom_eq [] text

/-- **The words of a text that is cut at a blank** are those of both sides. -/
theorem words_append_blank {c : Char} (hc : isBlank c = true) (a b : List Char) :
    words (a ++ c :: b) = words a ++ words b := by
  rw [words_eq, words_eq, words_eq, List.splitOnP_append_cons a b hc, List.filter_append]

theorem words_append_gap {gap : List Char} (hne : gap ≠ []) (hgap : ∀ c ∈ gap, isBlank c = true)
    (a b : List Char) : words (a ++ gap ++ b) = words a ++ words b := by
  obtain ⟨c, gap, rfl⟩ := List.exists_cons_of_ne_nil hne
  obtain ⟨hc, hrest⟩ := List.forall_mem_cons.1 hgap
  -- A blank more at the head of a text adds no word.
  have hblanks : words (gap ++ b) = words b := by
    clear hne hgap
    induction gap with
    | nil => rfl
    | cons d gap ih =>
      obtain ⟨hd, hgap⟩ := List.forall_mem_cons.1 hrest
      have hhead := words_append_blank hd [] (gap ++ b)
      rw [List.cons_append]
      rw [List.nil_append] at hhead
      rw [hhead, ih hgap]
      rfl
  rw [List.append_assoc, List.cons_append, words_append_blank hc, hblanks]

/-! ### Cuts of a text -/

section Cuts

variable {p : Char → Bool}

/-- A text that begins with a character to cut at and has no other. -/
def IsLed (p : Char → Bool) (u : List Char) : Prop :=
  ∃ c s, u = c :: s ∧ p c = true ∧ ∀ d ∈ s, p d = false

/-- A text that is put together of what is led is cut where it was put together. -/
theorem splitOnP_append_flatten {s : List Char} {us : List (List Char)}
    (hs : ∀ d ∈ s, p d = false) (hus : ∀ u ∈ us, IsLed p u) :
    (s ++ us.flatten).splitOnP p = s :: us.map List.tail := by
  induction us generalizing s with
  | nil =>
    rw [List.flatten_nil, List.append_nil, List.splitOnP_eq_singleton hs]
    rfl
  | cons u us ih =>
    obtain ⟨⟨c, t, rfl, hc, ht⟩, hrest⟩ := List.forall_mem_cons.1 hus
    have htail : (t ++ us.flatten).splitOnP p = t :: us.map List.tail := ih ht hrest
    rw [List.flatten_cons, List.cons_append, List.splitOnP_append_cons_of_forall_mem hs c hc, htail]
    rfl

/-- Every text is put together like that. -/
theorem exists_flatten_led (p : Char → Bool) (t : List Char) :
    ∃ (s : List Char) (us : List (List Char)), t = s ++ us.flatten ∧
      (∀ d ∈ s, p d = false) ∧ ∀ u ∈ us, IsLed p u := by
  induction t with
  | nil => exact ⟨[], [], rfl, by simp, by simp⟩
  | cons c t ih =>
    obtain ⟨s, us, rfl, hs, hus⟩ := ih
    by_cases hc : p c = true
    · refine ⟨[], (c :: s) :: us, rfl, by simp, ?_⟩
      exact List.forall_mem_cons.2 ⟨⟨c, s, rfl, hc, hs⟩, hus⟩
    · refine ⟨c :: s, us, rfl, ?_, hus⟩
      exact List.forall_mem_cons.2 ⟨Bool.eq_false_iff.2 hc, hs⟩

/-- Texts with a mark between them are texts with the mark behind them, and a last one. -/
theorem intercalate_concat (mark : Char) (vs : List (List Char)) (s : List Char) :
    [mark].intercalate (vs ++ [s]) = (vs.map (· ++ [mark])).flatten ++ s := by
  induction vs with
  | nil => simp [List.intercalate]
  | cons v vs ih =>
    have hne : vs ++ [s] ≠ [] := by simp
    obtain ⟨w, ws, hws⟩ := List.exists_cons_of_ne_nil hne
    rw [List.cons_append, List.map_cons, List.flatten_cons, List.append_assoc, ← ih, hws]
    simp [List.intercalate]

theorem splitOn_flatten_append {mark : Char} {vs : List (List Char)} {s : List Char}
    (hvs : ∀ v ∈ vs, mark ∉ v) (hs : mark ∉ s) :
    ((vs.map (· ++ [mark])).flatten ++ s).splitOn mark = vs ++ [s] := by
  have hall : ∀ v ∈ vs ++ [s], mark ∉ v := by
    intro v hv
    rcases List.mem_append.1 hv with hv | hv
    · exact hvs v hv
    · rwa [List.mem_singleton.1 hv]
  rw [← intercalate_concat, List.splitOn_intercalate mark hall (by simp)]

theorem eq_of_splitOn {mark : Char} {vs : List (List Char)} {s t : List Char}
    (h : t.splitOn mark = vs ++ [s]) : t = (vs.map (· ++ [mark])).flatten ++ s := by
  rw [← intercalate_concat, ← h, List.intercalate_splitOn]

end Cuts

/-! ### Class names -/

/-- The text has only small letters, digits and some marks. -/
def IsMadeOf (marks s : List Char) : Prop :=
  ∀ c ∈ s, c.isLower = true ∨ c.isDigit = true ∨ c ∈ marks

/-- What stands before a colon of a class name: two characters at least. -/
def IsVariant (s : List Char) : Prop :=
  2 ≤ s.length ∧ IsMadeOf "-[]".toList s

/-- What a class name begins with, behind its marks: a small letter, then letters and digits. -/
def IsFirstWord (s : List Char) : Prop :=
  ∃ c rest, s = c :: rest ∧ c.isLower = true ∧ IsMadeOf [] rest

/-- What stands behind a dash or a slash of a class name. -/
def IsPiece (s : List Char) : Prop :=
  s ≠ [] ∧ IsMadeOf ".[]#%".toList s

/-- The pieces of a class name stand behind a dash or a slash. -/
def isJoint (c : Char) : Bool :=
  c == '-' || c == '/'

/-- A word, and pieces behind dashes and slashes. -/
def IsJoinedName (s : List Char) : Prop :=
  ∃ word pieces, s.splitOnP isJoint = word :: pieces ∧ IsFirstWord word ∧
    ∀ piece ∈ pieces, IsPiece piece

/-- The text without a mark at its head, if it has it there. -/
def withoutMark (mark : Char) (s : List Char) : List Char :=
  if s.head? = some mark then s.tail else s

/-- A class name told by its cuts: variants, and a name behind the marks of importance and of
negation. -/
def IsClassName (token : List Char) : Prop :=
  ∃ variants last, token.splitOn ':' = variants ++ [last] ∧ (∀ v ∈ variants, IsVariant v) ∧
    IsJoinedName (withoutMark '-' (withoutMark '!' last))

/-! ### The pattern of class names -/

/-- The characters of variants. -/
def variantChar : CharClass :=
  .union smallLetterOrDigit (.among "-[]".toList)

/-- The characters of pieces. -/
def pieceChar : CharClass :=
  .union smallLetterOrDigit (.among ".[]#%".toList)

/-- A variant with its colon. -/
def variantPattern : Pattern :=
  .inRow [.one variantChar, .plus (.one variantChar), .literal ":"]

/-- A piece with what stands before it. -/
def piecePattern : Pattern :=
  .inRow [.oneOf "-/", .plus (.one pieceChar)]

/-- A word and pieces. -/
def joinedPattern : Pattern :=
  .inRow [.one (.between 'a' 'z'), .star (.one smallLetterOrDigit), .star piecePattern]

theorem className_eq : className = .seq (.star variantPattern)
    (.seq (.optional (.literal "!")) (.seq (.optional (.literal "-")) joinedPattern)) :=
  rfl

theorem contains_smallLetter (c : Char) : (CharClass.between 'a' 'z').contains c = c.isLower :=
  rfl

theorem contains_digit (c : Char) : (CharClass.between '0' '9').contains c = c.isDigit :=
  rfl

theorem contains_smallLetterOrDigit {c : Char} :
    smallLetterOrDigit.contains c = true ↔ c.isLower = true ∨ c.isDigit = true := by
  rw [smallLetterOrDigit, CharClass.contains, contains_smallLetter, contains_digit, Bool.or_eq_true]

theorem forall_contains_iff {marks s : List Char} :
    (∀ c ∈ s, (CharClass.union smallLetterOrDigit (.among marks)).contains c = true) ↔
      IsMadeOf marks s := by
  refine forall₂_congr fun c _ => ?_
  rw [CharClass.contains, Bool.or_eq_true, contains_smallLetterOrDigit, or_assoc]
  simp [CharClass.contains]

theorem IsMadeOf.notMem {marks s : List Char} (h : IsMadeOf marks s) {c : Char}
    (hc : ¬(c.isLower = true ∨ c.isDigit = true ∨ c ∈ marks)) : c ∉ s :=
  fun hmem => hc (h c hmem)

theorem isJoint_iff {c : Char} : isJoint c = true ↔ c = '-' ∨ c = '/' := by
  simp [isJoint]

theorem forall_isJoint_eq_false {s : List Char} (hdash : '-' ∉ s) (hslash : '/' ∉ s) :
    ∀ c ∈ s, isJoint c = false := by
  intro c hc
  rw [← Bool.not_eq_true, isJoint_iff]
  rintro (rfl | rfl)
  · exact hdash hc
  · exact hslash hc

theorem matches_variantPattern {s : List Char} :
    variantPattern.Matches s ↔ ∃ v, s = v ++ [':'] ∧ IsVariant v := by
  rw [variantPattern, Pattern.matches_inRow_cons]
  constructor
  · rintro ⟨_, _, rfl, ⟨c, rfl, hc⟩, u, w, rfl, hu, hw⟩
    obtain ⟨hne, hall⟩ := Pattern.matches_plus_one.1 hu
    have hcolon : w = [':'] := Pattern.matches_literal.1 (Pattern.matches_inRow_singleton.1 hw)
    have hmade : IsMadeOf "-[]".toList (c :: u) :=
      forall_contains_iff.1 (List.forall_mem_cons.2 ⟨hc, hall⟩)
    have hlength := List.length_pos_iff.2 hne
    refine ⟨c :: u, by rw [hcolon]; rfl, ?_, hmade⟩
    rw [List.length_cons]
    omega
  · rintro ⟨v, rfl, hlength, hmade⟩
    obtain ⟨c, d, v, rfl⟩ : ∃ c d rest, v = c :: d :: rest := by
      match v, hlength with
      | c :: d :: rest, _ => exact ⟨c, d, rest, rfl⟩
    obtain ⟨hc, hrest⟩ := List.forall_mem_cons.1 (forall_contains_iff.2 hmade)
    refine ⟨[c], d :: v ++ [':'], rfl, ⟨c, rfl, hc⟩, d :: v, [':'], rfl, ?_, ?_⟩
    · exact Pattern.matches_plus_one.2 ⟨List.cons_ne_nil d v, hrest⟩
    · exact Pattern.matches_inRow_singleton.2 (Pattern.matches_literal.2 rfl)

theorem matches_star_variantPattern {s : List Char} : (Pattern.star variantPattern).Matches s ↔
    ∃ vs : List (List Char), s = (vs.map (· ++ [':'])).flatten ∧ ∀ v ∈ vs, IsVariant v := by
  constructor
  · rintro ⟨us, rfl, hus⟩
    induction us with
    | nil => exact ⟨[], rfl, by simp⟩
    | cons u us ih =>
      obtain ⟨hu, hrest⟩ := List.forall_mem_cons.1 hus
      obtain ⟨v, rfl, hv⟩ := matches_variantPattern.1 hu
      obtain ⟨vs, hvs, hall⟩ := ih hrest
      exact ⟨v :: vs, by rw [List.flatten_cons, hvs]; rfl, List.forall_mem_cons.2 ⟨hv, hall⟩⟩
  · rintro ⟨vs, rfl, hvs⟩
    refine ⟨vs.map (· ++ [':']), rfl, ?_⟩
    intro u hu
    obtain ⟨v, hv, rfl⟩ := List.mem_map.1 hu
    exact matches_variantPattern.2 ⟨v, rfl, hvs v hv⟩

theorem matches_piecePattern {s : List Char} :
    piecePattern.Matches s ↔ ∃ c piece, s = c :: piece ∧ isJoint c = true ∧ IsPiece piece := by
  have hjoint : ∀ c, (CharClass.among "-/".toList).contains c = true ↔ isJoint c = true := by
    intro c
    simp [CharClass.contains, isJoint_iff]
  rw [piecePattern, Pattern.matches_inRow_cons]
  constructor
  · rintro ⟨_, piece, rfl, ⟨c, rfl, hc⟩, hpiece⟩
    obtain ⟨hne, hall⟩ := Pattern.matches_plus_one.1 (Pattern.matches_inRow_singleton.1 hpiece)
    exact ⟨c, piece, rfl, (hjoint c).1 hc, hne, forall_contains_iff.1 hall⟩
  · rintro ⟨c, piece, rfl, hc, hne, hmade⟩
    refine ⟨[c], piece, rfl, ⟨c, rfl, (hjoint c).2 hc⟩, Pattern.matches_inRow_singleton.2 ?_⟩
    exact Pattern.matches_plus_one.2 ⟨hne, forall_contains_iff.2 hmade⟩

theorem IsFirstWord.isMadeOf {s : List Char} (h : IsFirstWord s) : IsMadeOf [] s := by
  obtain ⟨c, rest, rfl, hc, hrest⟩ := h
  exact List.forall_mem_cons.2 ⟨.inl hc, hrest⟩

theorem matches_joinedPattern {s : List Char} : joinedPattern.Matches s ↔
    ∃ (word : List Char) (us : List (List Char)), s = word ++ us.flatten ∧ IsFirstWord word ∧
      ∀ u ∈ us, ∃ c piece, u = c :: piece ∧ isJoint c = true ∧ IsPiece piece := by
  have hrest : ∀ rest, (Pattern.star (.one smallLetterOrDigit)).Matches rest ↔
      IsMadeOf [] rest := by
    intro rest
    rw [Pattern.matches_star_one]
    refine forall₂_congr fun c _ => ?_
    rw [contains_smallLetterOrDigit]
    simp
  rw [joinedPattern, Pattern.matches_inRow_cons]
  constructor
  · rintro ⟨_, _, rfl, ⟨c, rfl, hc⟩, rest, t, rfl, hword, ht⟩
    obtain ⟨us, rfl, hus⟩ := Pattern.matches_inRow_singleton.1 ht
    have hfirst : IsFirstWord (c :: rest) :=
      ⟨c, rest, rfl, (contains_smallLetter c).symm.trans hc, (hrest rest).1 hword⟩
    exact ⟨c :: rest, us, rfl, hfirst, fun u hu => matches_piecePattern.1 (hus u hu)⟩
  · rintro ⟨_, us, rfl, ⟨c, rest, rfl, hc, hmade⟩, hus⟩
    have hpieces : (Pattern.star piecePattern).Matches us.flatten :=
      ⟨us, rfl, fun u hu => matches_piecePattern.2 (hus u hu)⟩
    refine ⟨[c], rest ++ us.flatten, rfl, ⟨c, rfl, (contains_smallLetter c).trans hc⟩, ?_⟩
    exact ⟨rest, us.flatten, rfl, (hrest rest).2 hmade, Pattern.matches_inRow_singleton.2 hpieces⟩

/-- **What is read as a word and pieces is cut into them.** -/
theorem matches_joinedPattern_iff {s : List Char} :
    joinedPattern.Matches s ↔ IsJoinedName s := by
  rw [matches_joinedPattern]
  constructor
  · rintro ⟨word, us, rfl, hword, hus⟩
    have hplain : ∀ c ∈ word, isJoint c = false :=
      forall_isJoint_eq_false (hword.isMadeOf.notMem (by decide))
        (hword.isMadeOf.notMem (by decide))
    have hled : ∀ u ∈ us, IsLed isJoint u := by
      intro u hu
      obtain ⟨c, piece, rfl, hc, -, hmade⟩ := hus u hu
      exact ⟨c, piece, rfl, hc,
        forall_isJoint_eq_false (hmade.notMem (by decide)) (hmade.notMem (by decide))⟩
    refine ⟨word, us.map List.tail, splitOnP_append_flatten hplain hled, hword, ?_⟩
    intro piece hpiece
    obtain ⟨u, hu, rfl⟩ := List.mem_map.1 hpiece
    obtain ⟨c, piece, rfl, -, hp⟩ := hus u hu
    exact hp
  · rintro ⟨word, pieces, hsplit, hword, hpieces⟩
    -- The text is put together of what is led by joints, and so cut into just these.
    obtain ⟨w, us, rfl, hw, hus⟩ := exists_flatten_led isJoint s
    rw [splitOnP_append_flatten hw hus, List.cons.injEq] at hsplit
    obtain ⟨rfl, rfl⟩ := hsplit
    refine ⟨w, us, rfl, hword, fun u hu => ?_⟩
    obtain ⟨c, piece, rfl, hc, -⟩ := hus u hu
    exact ⟨c, piece, rfl, hc, hpieces piece (List.mem_map.2 ⟨_, hu, rfl⟩)⟩

/-! ### Marks before a name -/

theorem withoutMark_append {mark : Char} {m s : List Char} (hm : m = [mark] ∨ m = [])
    (hs : s.head? ≠ some mark) : withoutMark mark (m ++ s) = s := by
  rcases hm with rfl | rfl
  · simp [withoutMark]
  · rw [List.nil_append, withoutMark, if_neg hs]

theorem exists_append_withoutMark (mark : Char) (s : List Char) :
    ∃ m, (m = [mark] ∨ m = []) ∧ s = m ++ withoutMark mark s := by
  unfold withoutMark
  split_ifs with h
  · obtain ⟨rest, rfl⟩ := List.head?_eq_some_iff.1 h
    exact ⟨[mark], .inl rfl, rfl⟩
  · exact ⟨[], .inr rfl, rfl⟩

theorem IsJoinedName.isLower_head {s : List Char} (h : IsJoinedName s) :
    ∀ c ∈ s.head?, c.isLower = true := by
  obtain ⟨_, us, rfl, ⟨c, rest, rfl, hc, -⟩, -⟩ :=
    matches_joinedPattern.1 (matches_joinedPattern_iff.2 h)
  intro d hd
  obtain rfl := Option.some.inj hd
  exact hc

theorem IsJoinedName.colon_notMem {s : List Char} (h : IsJoinedName s) : ':' ∉ s := by
  obtain ⟨word, us, rfl, hword, hus⟩ := matches_joinedPattern.1 (matches_joinedPattern_iff.2 h)
  intro hmem
  rcases List.mem_append.1 hmem with hmem | hmem
  · exact hword.isMadeOf.notMem (by decide) hmem
  · obtain ⟨u, hu, hmem⟩ := List.mem_flatten.1 hmem
    obtain ⟨c, piece, rfl, hc, -, hmade⟩ := hus u hu
    rcases List.mem_cons.1 hmem with rfl | hmem
    · exact absurd hc (by decide)
    · exact hmade.notMem (by decide) hmem

/-- **The pattern of class names means their cuts.** -/
theorem accepts_className_iff {t : List Char} : className.accepts t = true ↔ IsClassName t := by
  have hbang : ∀ m, (Pattern.optional (.literal "!")).Matches m ↔ m = ['!'] ∨ m = [] :=
    fun m => or_congr_left Pattern.matches_literal
  have hdash : ∀ m, (Pattern.optional (.literal "-")).Matches m ↔ m = ['-'] ∨ m = [] :=
    fun m => or_congr_left Pattern.matches_literal
  rw [Pattern.accepts_iff, className_eq]
  constructor
  · rintro ⟨u, _, rfl, hu, i, _, rfl, hi, d, s, rfl, hd, hs⟩
    rw [hbang] at hi
    rw [hdash] at hd
    rw [matches_joinedPattern_iff] at hs
    obtain ⟨vs, rfl, hvs⟩ := matches_star_variantPattern.1 hu
    -- A name has no colon and begins with a letter, so no cut falls into it and no mark of it is
    -- taken for one that stands before it.
    have hcolon := hs.colon_notMem
    have hhead : ∀ mark, mark.isLower = false → s.head? ≠ some mark := by
      intro mark hmark hhead
      rw [hs.isLower_head mark hhead] at hmark
      cases hmark
    have hlast : withoutMark '-' (withoutMark '!' (i ++ (d ++ s))) = s := by
      have hnext : (d ++ s).head? ≠ some '!' := by
        rcases hd with rfl | rfl
        · simp
        · exact hhead '!' (by decide)
      rw [withoutMark_append hi hnext, withoutMark_append hd (hhead '-' (by decide))]
    have hlastColon : ':' ∉ i ++ (d ++ s) := by
      rcases hi with rfl | rfl <;> rcases hd with rfl | rfl <;> simpa using hcolon
    have hsplit : ∀ v ∈ vs, ':' ∉ v := fun v hv => (hvs v hv).2.notMem (by decide)
    exact ⟨vs, _, splitOn_flatten_append hsplit hlastColon, hvs, by rwa [hlast]⟩
  · rintro ⟨vs, last, hsplit, hvs, hname⟩
    obtain ⟨i, hi, hlast⟩ := exists_append_withoutMark '!' last
    obtain ⟨d, hd, hrest⟩ := exists_append_withoutMark '-' (withoutMark '!' last)
    have ht : t = (vs.map (· ++ [':'])).flatten ++
        (i ++ (d ++ withoutMark '-' (withoutMark '!' last))) := by
      rw [← hrest, ← hlast]
      exact eq_of_splitOn hsplit
    refine ⟨_, _, ht, matches_star_variantPattern.2 ⟨vs, rfl, hvs⟩, i, _, rfl, (hbang i).2 hi, ?_⟩
    exact ⟨d, _, rfl, (hdash d).2 hd, matches_joinedPattern_iff.2 hname⟩

/-! ### Lists of class names -/

/-- A list of class names: one of them cannot be prose, or two have several parts. -/
structure IsClassList (tokens : List (List Char)) : Prop where
  ne_nil : tokens ≠ []
  names : ∀ t ∈ tokens, IsClassName t
  evident : (∃ t ∈ tokens, ':' ∈ t ∨ '[' ∈ t ∨ ∃ c ∈ t, c.isDigit = true) ∨
    2 ≤ tokens.countP fun t => '-' ∈ t ∨ '/' ∈ t

/-- A class list is told from its words. -/
theorem looksLikeClassList_iff {text : List Char} :
    looksLikeClassList text = true ↔ IsClassList (words text) := by
  have hstrong : ∀ t, isStrongClassName t = true ↔
      ':' ∈ t ∨ '[' ∈ t ∨ ∃ c ∈ t, c.isDigit = true := by
    intro t
    simp [isStrongClassName, or_assoc]
  have hdashed : (words text).countP (fun t => '-' ∈ t ∨ '/' ∈ t) =
      ((words text).filter isDashedClassName).length := by
    rw [← List.countP_eq_length_filter]
    refine List.countP_congr fun t _ => ?_
    simp [isDashedClassName]
  have hnames : (words text).all className.accepts = true ↔ ∀ t ∈ words text, IsClassName t := by
    rw [List.all_eq_true]
    exact forall₂_congr fun t _ => accepts_className_iff
  have hevident : ((words text).any isStrongClassName ||
      decide (((words text).filter isDashedClassName).length ≥ 2)) = true ↔
        (∃ t ∈ words text, ':' ∈ t ∨ '[' ∈ t ∨ ∃ c ∈ t, c.isDigit = true) ∨
          2 ≤ (words text).countP fun t => '-' ∈ t ∨ '/' ∈ t := by
    rw [Bool.or_eq_true, List.any_eq_true, decide_eq_true_eq, hdashed]
    exact or_congr_left (exists_congr fun t => and_congr_right fun _ => hstrong t)
  have hne : (!(words text).isEmpty) = true ↔ words text ≠ [] := by simp
  rw [looksLikeClassList, Bool.and_eq_true, Bool.and_eq_true, hne, hnames, hevident]
  constructor
  · rintro ⟨⟨hne, hnames⟩, hevident⟩
    exact ⟨hne, hnames, hevident⟩
  · rintro ⟨hne, hnames, hevident⟩
    exact ⟨⟨hne, hnames⟩, hevident⟩

section Lists

variable {tokens more : List (List Char)}

/-- The order of the names does not matter. -/
theorem IsClassList.perm (h : IsClassList tokens) (hperm : tokens.Perm more) :
    IsClassList more where
  ne_nil := by
    rintro rfl
    exact h.ne_nil hperm.eq_nil
  names t ht := h.names t (hperm.mem_iff.2 ht)
  evident := by
    rcases h.evident with ⟨t, ht, hstrong⟩ | hdashed
    · exact .inl ⟨t, hperm.mem_iff.1 ht, hstrong⟩
    · exact .inr (hperm.countP_eq _ ▸ hdashed)

/-- Class names more do no harm. -/
theorem IsClassList.append (h : IsClassList tokens) (hmore : ∀ t ∈ more, IsClassName t) :
    IsClassList (tokens ++ more) where
  ne_nil := List.append_ne_nil_of_left_ne_nil h.ne_nil more
  names := List.forall_mem_append.2 ⟨h.names, hmore⟩
  evident := by
    rcases h.evident with ⟨t, ht, hstrong⟩ | hdashed
    · exact .inl ⟨t, List.mem_append_left more ht, hstrong⟩
    · right
      rw [List.countP_append]
      omega

end Lists

/-- **A class list is known by its words**: all of them are class names, and one of them cannot be
prose or two have several parts. So their order does not matter, class names may be added, and two
lists with blanks between them are a list again. -/
theorem looksLikeClassList_iff_words (text : List Char) :
    (looksLikeClassList text = true ↔ IsClassList (words text)) ∧
      (∀ text', (words text').Perm (words text) →
        looksLikeClassList text' = looksLikeClassList text) ∧
      (∀ text' more, looksLikeClassList text = true → (∀ t ∈ more, IsClassName t) →
        (words text').Perm (words text ++ more) → looksLikeClassList text' = true) ∧
      ∀ gap text', looksLikeClassList text = true → looksLikeClassList text' = true → gap ≠ [] →
        (∀ c ∈ gap, isBlank c = true) → looksLikeClassList (text ++ gap ++ text') = true := by
  refine ⟨looksLikeClassList_iff, fun text' hperm => ?_, fun text' more htext hmore hperm => ?_,
    fun gap text' htext htext' hne hgap => ?_⟩
  · rw [Bool.eq_iff_iff, looksLikeClassList_iff, looksLikeClassList_iff]
    exact ⟨fun h => h.perm hperm, fun h => h.perm hperm.symm⟩
  · rw [looksLikeClassList_iff] at htext ⊢
    exact (htext.append hmore).perm hperm.symm
  · rw [looksLikeClassList_iff] at htext htext' ⊢
    rw [words_append_gap hne hgap]
    exact htext.append htext'.names

/-- Two names with dashes are a list; so they are in another order with a third one between them,
and with a name behind them that has a variant. -/
theorem looksLikeClassList_iff_words_utilities :
    let text := "text-sm font-medium".toList
    looksLikeClassList text = true ∧ IsClassList (words text) ∧
      looksLikeClassList "font-medium flex text-sm".toList = true ∧
      looksLikeClassList (text ++ [' ', '\n'] ++ "hover:underline".toList) = true := by
  intro text
  have htext : looksLikeClassList text = true := by decide +kernel
  have hvariant : looksLikeClassList "hover:underline".toList = true := by decide +kernel
  have hflex : ∀ t ∈ ["flex".toList], IsClassName t := by
    intro t ht
    rw [List.mem_singleton.1 ht]
    exact accepts_className_iff.1 (by decide +kernel)
  have hperm : (words "font-medium flex text-sm".toList).Perm (words text ++ ["flex".toList]) := by
    decide +kernel
  have hgap : ∀ c ∈ [' ', '\n'], isBlank c = true :=
    List.forall_mem_cons.2 ⟨by decide, List.forall_mem_singleton.2 (by decide)⟩
  obtain ⟨hiff, -, hadd, hjoin⟩ := looksLikeClassList_iff_words text
  exact ⟨htext, hiff.1 htext, hadd _ _ htext hflex hperm,
    hjoin _ _ htext hvariant (List.cons_ne_nil _ _) hgap⟩

end Untranslated
