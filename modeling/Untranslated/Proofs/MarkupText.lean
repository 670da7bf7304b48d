import Untranslated.Proofs.SecondReading
import Untranslated.Proofs.SpacedCandidates

/-!
# Text between tags

Text between tags stands right behind a tag or a brace and goes on to the next one. So the text
around it shows nothing that a rule on code looks for, whatever code is around the element, and
such a text is no attribute, no argument and no template. Only rules on the text itself let it
through, or a directive (`first?_of_markupText`).

* `Script.StandsBetween`: what is around text between tags.
* `Candidate.IsMarkupText`: what is known of a candidate without delimiters.
-/

namespace Untranslated

open Script (Dialect ClosesMarkup OpensMarkup read strip)
open Text (bytes isBlank)

/-! ### The characters around text between tags -/

/-- The character next to a literal that is thrown, a case, looked up or compared. -/
theorem Takes.exists_head {s : List Char} (h : Takes s) :
    ∃ c ∈ s.head?, c = '=' ∨ c = '[' ∨ c = 'w' ∨ c = 'e' := by
  cases h with
  | equal rest => exact ⟨'=', rfl, .inl rfl⟩
  | unequal rest => exact ⟨'=', rfl, .inl rfl⟩
  | lookup blanks c rest => exact ⟨'[', rfl, .inr (.inl rfl)⟩
  | word w rest hw =>
    rcases List.mem_cons.1 hw with rfl | hw
    · exact ⟨'w', rfl, .inr (.inr (.inl rfl))⟩
    · obtain rfl := List.mem_singleton.1 hw
      exact ⟨'e', rfl, .inr (.inr (.inr rfl))⟩

theorem Compares.exists_head {s : List Char} (h : Compares s) :
    ∃ c ∈ s.head?, c = '=' ∨ c = '!' := by
  cases h with
  | equal rest => exact ⟨'=', rfl, .inl rfl⟩
  | unequal rest => exact ⟨'!', rfl, .inr rfl⟩

/-- What is seen of a text has its first character, if that is no blank. -/
theorem head?_dropWhile_take {s : List Char} (h : ∀ c ∈ s.head?, isBlank c = false) :
    ((s.take contextLength).dropWhile isBlank).head? = s.head? := by
  cases s with
  | nil => rfl
  | cons c s =>
    have hc : isBlank c = false := h c rfl
    rw [contextLength, List.take_succ_cons, List.dropWhile_cons_of_neg (by simp [hc])]
    rfl

/-- Behind a tag or a brace nothing is thrown, a case, looked up or compared. -/
theorem isTakenBefore_of_closesMarkup {behind : List Char}
    (h : ∀ c ∈ behind.head?, ClosesMarkup c) : isTakenBefore (contextBefore behind) = false := by
  have hblank : ∀ c ∈ behind.head?, isBlank c = false := by
    intro c hc
    rcases h c hc with rfl | rfl <;> decide
  rw [Bool.eq_false_iff, ne_eq, isTakenBefore_contextBefore]
  intro htakes
  obtain ⟨c, hc, hcases⟩ := htakes.exists_head
  rw [head?_dropWhile_take hblank] at hc
  rcases h c hc with rfl | rfl <;> revert hcases <;> decide

/-- Before a tag or a brace nothing is compared. -/
theorem isTakenAfter_of_opensMarkup {after : List Char} (h : ∀ c ∈ after.head?, OpensMarkup c) :
    isTakenAfter (contextAfter after) = false := by
  have hblank : ∀ c ∈ after.head?, isBlank c = false := by
    intro c hc
    rcases h c hc with rfl | rfl <;> decide
  rw [Bool.eq_false_iff, ne_eq, isTakenAfter_contextAfter]
  intro hcompares
  obtain ⟨c, hc, hcases⟩ := hcompares.exists_head
  rw [head?_dropWhile_take hblank] at hc
  rcases h c hc with rfl | rfl <;> revert hcases <;> decide

namespace Script

/-- The text before ends with a tag or a brace, and the text after begins with one. -/
structure StandsBetween (before after : List Char) : Prop where
  before : ∀ c ∈ before.getLast?, ClosesMarkup c
  after : ∀ c ∈ after.head?, OpensMarkup c

/-- Text between tags stands between what is before it and what is after it. -/
theorem Bordered.standsBetween {a b : List (LeafKind × List Char)} {text : List Char}
    (h : Bordered [] (a ++ [(.lexeme .markupText, text)] ++ b) []) :
    StandsBetween (a.flatMap (·.2)) (b.flatMap (·.2)) := by
  rw [List.append_assoc, List.singleton_append, bordered_append, bordered_cons, List.nil_append,
    List.append_nil] at h
  obtain ⟨hbefore, hafter⟩ := h.2.1 rfl
  rw [List.append_nil] at hafter
  exact ⟨hbefore, hafter⟩

/-- A literal without delimiters is text between tags, and nothing is told about it. -/
theorem markupText_of_literal? {o : Options} {x : Spot} {y : Occurrence} {rest : List Char}
    (h : x.literal? o = some y) (hnone : delimiterAt y rest = .none) :
    (∃ text, x.tree = .leaf (.lexeme .markupText) text) ∧ y.origin = ⟨.text, none, none, none⟩ := by
  obtain ⟨way, lo, t⟩ := x
  unfold Spot.literal? at h
  dsimp only at h
  split at h
  case h_1 =>
    obtain ⟨origin, -, rfl⟩ := Option.map_eq_some_iff.1 h
    cases hnone
  case h_2 =>
    obtain ⟨origin, -, rfl⟩ := Option.map_eq_some_iff.1 h
    cases hnone
  case h_3 text =>
    split at h
    case isTrue =>
      obtain rfl := Option.some.inj h
      exact ⟨⟨text, rfl⟩, rfl⟩
    case isFalse => cases h
  case h_4 =>
    obtain ⟨origin, -, rfl⟩ := Option.map_eq_some_iff.1 h
    cases hnone
  case h_5 => cases h

end Script

/-! ### Candidates without delimiters -/

/-- The candidate is text between tags of the script `s`: nothing is told about it, and what is seen
around it is what it stands between. -/
structure Candidate.IsMarkupText (s : List Char) (c : Candidate) : Prop where
  kind : c.kind = .text
  attributeName : c.attributeName = none
  callee : c.callee = none
  tag : c.tag = none
  around : ∃ a outer b, s = a ++ outer ++ b ∧ Script.StandsBetween a b ∧
    c.before = contextBefore a.reverse ∧ c.after = contextAfter b

/-- What a candidate has of its literal and of the text that is seen around it. -/
theorem Occurrence.spec_of_candidateIn {x : Occurrence} {d : Delimiter}
    {outer s before after : List Char} {c : Candidate}
    (h : x.candidateIn d outer s before after = some c) :
    c.delimiter = d ∧ c.before = before ∧ c.after = after ∧
      x.origin = ⟨c.kind, c.attributeName, c.callee, c.tag⟩ := by
  unfold candidateIn at h
  dsimp only at h
  split_ifs at h
  obtain rfl := Option.some.inj h
  exact ⟨rfl, rfl, rfl, rfl⟩

/-- **A candidate without delimiters is text between tags.** -/
theorem isMarkupText_of_delimiter {o : Options} {dialect : Dialect} {s : List Char}
    {t : Script.Tree} {cs : List Candidate} (hmark : s.head? ≠ some '\ufeff')
    (hread : read dialect s = .ok t) (hcs : candidates o dialect s = .ok cs) {c : Candidate}
    (hc : c ∈ cs) (hnone : c.delimiter = .none) : c.IsMarkupText s := by
  obtain ⟨x, y, hplace, hoccurrence, hsome⟩ :=
    Script.exists_place_of_mem_candidates hmark hread hcs hc
  have hliteral := Script.literal?_of_occurrence? hoccurrence
  -- The literal is cut out of the script between the leaves before it and those after it.
  obtain ⟨a, b, hleaves, hlo⟩ := hplace.exists_leaves
  have htext : t.text = a.flatMap (·.2) ++ x.tree.text ++ b.flatMap (·.2) := by
    simp [Script.Tree.text, hleaves]
  obtain ⟨hlo', hhi, -⟩ := Script.spec_of_literal? hliteral (b.flatMap (·.2))
  have hhi' : y.hi = bytes (a.flatMap (·.2) ++ x.tree.text) := by
    rw [hhi, hlo', Text.bytes_append, hlo]
  rw [htext, candidate?_of_split _ (hlo'.trans hlo.symm) hhi'] at hsome
  obtain ⟨hdelimiter, hbefore, hafter, horigin⟩ :=
    Occurrence.spec_of_candidateIn (Option.some.inj hsome)
  rw [hdelimiter] at hnone
  obtain ⟨⟨text, htree⟩, horigin'⟩ := Script.markupText_of_literal? hliteral hnone
  obtain ⟨hkind, hattribute, hcallee, htag⟩ := Origin.mk.inj (horigin.symm.trans horigin')
  -- It is one leaf, and what is next to such a leaf is known since the script was read.
  have hbordered := Script.bordered_of_parse (Script.parse_of_read hread)
  rw [hleaves, htree] at hbordered
  refine ⟨hkind, hattribute, hcallee, htag, a.flatMap (·.2), x.tree.text, b.flatMap (·.2), ?_,
    hbordered.standsBetween, hbefore, hafter⟩
  rw [← htext, Script.text_of_read hmark hread]

namespace Candidate.IsMarkupText

variable {s : List Char} {c : Candidate} (h : c.IsMarkupText s)

include h

theorem isHiddenAttribute_eq : c.isHiddenAttribute = false := by
  rw [isHiddenAttribute, h.attributeName, Option.any_none, Bool.and_false]

theorem isClassName_eq : c.isClassName = false := by
  rw [isClassName, method, h.callee, h.attributeName]
  rfl

theorem isProgrammatic_eq_false : c.isProgrammatic = false := by
  obtain ⟨a, outer, b, -, hbetween, hbefore, hafter⟩ := h.around
  have htaken : isTakenBefore c.before = false := by
    rw [hbefore]
    refine isTakenBefore_of_closesMarkup fun d hd => ?_
    rw [List.head?_reverse] at hd
    exact hbetween.before d hd
  have hcompared : isTakenAfter c.after = false := by
    rw [hafter]
    exact isTakenAfter_of_opensMarkup hbetween.after
  rw [c.isProgrammatic_eq, h.tag, h.callee, htaken, hcompared]
  rfl

end Candidate.IsMarkupText

/-! ### Rules on text between tags -/

/-- The rules that can let text between tags through. -/
def Rule.ofMarkupText : List Rule :=
  [noWordCharacters, urlOrPath, dateFormat, regexPattern, ignoreDirective]

/-- A rule that is about code lets no text between tags through. -/
theorem Candidate.IsMarkupText.mem_ofMarkupText {s : List Char} {c : Candidate}
    (h : c.IsMarkupText s) {ignores : Ignores} {r : Rule} (hr : r.matches? ignores c = true) :
    r ∈ Rule.ofMarkupText := by
  cases r with
  | nonVisibleAttribute => exact absurd hr (by simp [Rule.matches?, h.isHiddenAttribute_eq])
  | className => exact absurd hr (by simp [Rule.matches?, h.isClassName_eq])
  | programmaticCall => exact absurd hr (by simp [Rule.matches?, h.isProgrammatic_eq_false])
  | _ => decide

/-- **Text between tags is never let through as code.** The candidates without delimiters that are
found in a stripped script are no attributes, no class names and no texts for programs, and if they
are let through it is by one of the other rules. -/
theorem first?_of_markupText (o : Options) (dialect : Dialect) {s out : List Char}
    {t u : Script.Tree} (hmark : '\ufeff' ∉ s) (hread : read dialect s = .ok t)
    (hstrip : strip dialect s = .ok out) (hread' : read dialect out = .ok u) :
    ∃ cs, candidates o dialect out = .ok cs ∧ ∀ c ∈ cs, c.delimiter = .none → ∀ ignores,
      Rule.matches? ignores c .nonVisibleAttribute = false ∧
        Rule.matches? ignores c .className = false ∧
        Rule.matches? ignores c .programmaticCall = false ∧
        ∀ r, Rule.first? ignores c = some r → r ∈ Rule.ofMarkupText := by
  have hhead : s.head? ≠ some '\ufeff' := fun h => hmark (List.mem_of_mem_head? h)
  have hhead' : out.head? ≠ some '\ufeff' := Script.head?_strip hhead hread hstrip
  obtain ⟨cs, hcs⟩ := exists_candidates_of_read (o := o) hhead' hread'
  refine ⟨cs, hcs, fun c hc hnone ignores => ?_⟩
  have htext := isMarkupText_of_delimiter hhead' hread' hcs hc hnone
  refine ⟨htext.isHiddenAttribute_eq, htext.isClassName_eq, htext.isProgrammatic_eq_false, ?_⟩
  intro r hr
  exact htext.mem_ofMarkupText (List.find?_some hr)

/-- An element that is thrown and compared. -/
def thrownMarkup : List Char :=
  "throw /* a */ x === <p>Hello</p> === y;\n".toList

/-- Its text is found, and it is no text for programs. -/
theorem first?_of_markupText_thrownMarkup :
    '\ufeff' ∉ thrownMarkup ∧ ∃ t out u cs, read .markup thrownMarkup = .ok t ∧
      strip .markup thrownMarkup = .ok out ∧ read .markup out = .ok u ∧
      candidates ⟨[], [], [], []⟩ .markup out = .ok cs ∧ cs.map (·.text) = ["Hello".toList] ∧
      ∀ c ∈ cs, c.delimiter = .none ∧ ∀ ignores,
        Rule.matches? ignores c .programmaticCall = false := by
  let out : List Char := "throw         x === <p>Hello</p> === y;\n".toList
  have hmark : '\ufeff' ∉ thrownMarkup := by decide +kernel
  have hstrip : strip .markup thrownMarkup = .ok out :=
    eq_ok_of_toOption (by decide +kernel)
  have hfound : (candidates ⟨[], [], [], []⟩ .markup out).toOption.map
      (fun cs => cs.map fun c => (c.text, c.delimiter)) = some [("Hello".toList, .none)] := by
    decide +kernel
  obtain ⟨cs, hcs, hpairs⟩ := Option.map_eq_some_iff.1 hfound
  have hcs := eq_ok_of_toOption hcs
  cases hread : read .markup thrownMarkup with
  | error e =>
    rw [strip_error hread] at hstrip
    cases hstrip
  | ok t =>
    cases hread' : read .markup out with
    | error e =>
      rw [candidates_error hread'] at hcs
      cases hcs
    | ok u =>
      obtain ⟨cs', hcs', hrules⟩ :=
        first?_of_markupText ⟨[], [], [], []⟩ .markup hmark hread hstrip hread'
      obtain rfl : cs = cs' := Except.ok.inj (hcs.symm.trans hcs')
      have htexts := congrArg (List.map Prod.fst) hpairs
      rw [List.map_map] at htexts
      refine ⟨hmark, t, out, u, cs, rfl, hstrip, hread', hcs, htexts, fun c hc => ?_⟩
      have hmem : (c.text, c.delimiter) ∈ [("Hello".toList, Delimiter.none)] := by
        rw [← hpairs]
        exact List.mem_map_of_mem hc
      have hnone : c.delimiter = .none := (Prod.mk.inj (List.mem_singleton.1 hmem)).2
      exact ⟨hnone, fun ignores => (hrules c hc hnone ignores).2.2.1⟩

end Untranslated
