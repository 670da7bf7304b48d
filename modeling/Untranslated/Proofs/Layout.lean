import Untranslated.Proofs.SpacedCandidates

/-!
# Layout

Spaces or a comment between two tokens of a script leave what is reported as it is, where the gap
is read as one (`ReadsAlike`), makes no directive and stands in no literal that is reported, and as
long as the rules still see what stands next to a literal (`classify_spaced`). They see 48
characters on each side, of which a comment leaves blanks: a longer one hides what the literal is
compared with, and the literal is reported (`classify_comparedStatus`).

* `Seam`: a place between two tokens.
* `Candidate.Spaced.isViolation_eq`: a candidate is decided on as without the gap.
-/

namespace Untranslated

open Script (Dialect Gap ReadsAlike read strip)
open Text (bytes isBlank)

/-- **Between `x` and `y` a gap parts no token**: no name, no sign that compares, and no carriage
return from its newline. -/
structure Seam (x y : List Char) : Prop where
  name : ∀ c ∈ x.getLast?, ∀ d ∈ y.head?, isNameChar c = true → isNameChar d = false
  sign : ∀ c ∈ x.getLast?, ∀ d ∈ y.head?, c = '=' ∨ c = '!' → d ≠ '='
  lineEnd : ¬(x.getLast? = some '\r' ∧ y.head? = some '\n')

/-! ### What is decided on a candidate -/

/-- The rule on texts for programs asks for the callee, the tag and what stands next to a
literal. -/
theorem isProgrammatic_congr {c c' : Candidate} (htag : c'.tag = c.tag)
    (hcallee : c'.callee = c.callee)
    (hbefore : isTakenBefore c'.before = isTakenBefore c.before)
    (hafter : isTakenAfter c'.after = isTakenAfter c.after) :
    c'.isProgrammatic = c.isProgrammatic := by
  rw [c.isProgrammatic_eq, c'.isProgrammatic_eq, htag, hcallee, hbefore, hafter]

/-- The candidate is let through whatever its text is. -/
def Verdict.isLetThrough (v : Verdict) : Bool :=
  v.isTranslated || v.rule.isSome

/-- What is let through is not reported. -/
theorem Verdict.isViolation_of_isLetThrough {v : Verdict} (h : v.isLetThrough = true)
    (o : Options) : v.isViolation o = false := by
  obtain ⟨c, translated, rule⟩ := v
  cases translated
  · cases rule
    · cases h
    · rfl
  · rfl

section Spaced

variable {quiet : Candidate → Prop} {x gap y : List Char} {c c' : Candidate}

/-- **The rules see next to a literal what they saw without the gap.** -/
theorem Candidate.Spaced.isProgrammatic_eq (h : c.Spaced quiet x gap y c')
    (hgap : ∀ b ∈ gap, isBlank b = true) (hseam : Seam x y) :
    c'.isProgrammatic = c.isProgrammatic := by
  cases h with
  | ahead a outer m split view context =>
    refine isProgrammatic_congr rfl rfl rfl ?_
    have hcut : ∀ last ∈ m.getLast?, EndsSign last y := by
      intro last hlast hsign d hd
      refine hseam.sign last ?_ d hd hsign
      obtain ⟨front, rfl⟩ := List.getLast?_eq_some_iff.1 hlast
      rw [split, ← List.append_assoc, List.getLast?_append_of_ne_nil _ (List.cons_ne_nil _ _)]
      rfl
    have hiff := toldNear_compares.context_iff hgap hcut view
    rw [context, Bool.eq_iff_iff, isTakenAfter_contextAfter, isTakenAfter_contextAfter]
    exact hiff
  | within => rfl
  | behind m outer b split view context =>
    refine isProgrammatic_congr rfl rfl ?_ rfl
    -- Backwards the seam is met from the other side.
    have hcut : ∀ last ∈ m.reverse.getLast?, Parts last x.reverse := by
      intro last hlast
      rw [List.getLast?_reverse] at hlast
      have hhead : y.head? = some last := by
        obtain ⟨rest, rfl⟩ := List.head?_eq_some_iff.1 hlast
        rw [split]
        rfl
      constructor
      · intro hname d hd
        rw [List.head?_reverse] at hd
        rw [Bool.eq_false_iff]
        intro hdName
        rw [hseam.name d hd last hhead hdName] at hname
        cases hname
      · rintro rfl d hd
        rw [List.head?_reverse] at hd
        have hsign := hseam.sign d hd '=' hhead
        exact ⟨fun h => hsign (.inl h) rfl, fun h => hsign (.inr h) rfl⟩
    have hgap' : ∀ b ∈ gap.reverse, isBlank b = true := fun b hb => hgap b (List.mem_reverse.1 hb)
    have hiff := toldNear_takes.context_iff hgap' hcut (by rwa [List.length_reverse])
    rw [context, Bool.eq_iff_iff, isTakenBefore_contextBefore, isTakenBefore_contextBefore]
    exact hiff

/-- The same rule lets a candidate through as without the gap. -/
theorem Candidate.Spaced.first?_eq (h : c.Spaced quiet x gap y c')
    (hgap : ∀ b ∈ gap, isBlank b = true) (hseam : Seam x y) (ignores : Ignores) :
    Rule.first? ignores c' = Rule.first? ignores c := by
  have hprogrammatic := h.isProgrammatic_eq hgap hseam
  have hmatches : Rule.matches? ignores c' = Rule.matches? ignores c := by
    funext rule
    cases rule with
    | programmaticCall => exact hprogrammatic
    | _ => cases h <;> rfl
  rw [Rule.first?, Rule.first?, hmatches]

/-- **A candidate is decided on as without the gap**, if one that has the gap inside is let through
whatever its text is. -/
theorem Candidate.Spaced.isViolation_eq {o : Options} {ignores : Ignores}
    (h : c.Spaced (fun c => (c.verdict o ignores).isLetThrough = true) x gap y c')
    (hgap : ∀ b ∈ gap, isBlank b = true) (hseam : Seam x y) :
    (c'.verdict o ignores).isViolation o = (c.verdict o ignores).isViolation o ∧
      ((c.verdict o ignores).isViolation o = true → c'.line = c.line ∧ c'.text = c.text) := by
  have hrule := h.first?_eq hgap hseam ignores
  cases h with
  | within quiet text =>
    have hquiet : (Candidate.verdict o ignores { c with text := text }).isLetThrough = true := by
      rw [← quiet, Verdict.isLetThrough, Verdict.isLetThrough, Candidate.verdict, Candidate.verdict,
        hrule]
    rw [Verdict.isViolation_of_isLetThrough quiet, Verdict.isViolation_of_isLetThrough hquiet]
    exact ⟨rfl, nofun⟩
  | _ =>
    refine ⟨?_, fun _ => ⟨rfl, rfl⟩⟩
    unfold Verdict.isViolation Candidate.verdict
    rw [hrule]

end Spaced

/-- What is reported of candidates is reported of them with a gap put in. -/
theorem reported_spaced {x gap y : List Char} {o : Options} {ignores : Ignores}
    {cs cs' : List Candidate}
    (h : List.Forall₂
      (Candidate.Spaced (fun c => (c.verdict o ignores).isLetThrough = true) x gap y) cs cs')
    (hgap : ∀ b ∈ gap, isBlank b = true) (hseam : Seam x y) (only : Option (List Nat)) :
    reported o ignores only cs' = reported o ignores only cs := by
  unfold reported
  congr 1
  induction h with
  | nil => rfl
  | @cons c c' cs cs' hc _ ih =>
    obtain ⟨hviolation, hkept⟩ := hc.isViolation_eq hgap hseam
    have hcandidate : ∀ c : Candidate, (c.verdict o ignores).candidate = c := fun _ => rfl
    simp only [List.map_cons, List.filter_cons, hviolation, hcandidate]
    by_cases hreported : (c.verdict o ignores).isViolation o = true
    · obtain ⟨hline, htext⟩ := hkept hreported
      rw [hline]
      split
      · simp only [List.map_cons, hcandidate, hline, htext, ih]
      · exact ih
    · rw [Bool.not_eq_true] at hreported
      simp only [hreported, Bool.false_and, Bool.false_eq_true, if_false]
      exact ih

/-! ### A script with a gap -/

section Classify

variable {o : Options} {dialect : Dialect} {g : Gap} {a b x y : List Char}

/-- **A gap between two tokens changes nothing that is reported**: spaces or a comment that the
script and what stripping leaves of it, `x` before the gap and `y` behind it, are read alike with,
that makes no directive, if a literal with the gap inside is let through anyway, and each of the
others shows on the side of the gap what stands next to it. -/
theorem classify_spaced (r : ReadsAlike dialect g a b) (hx : r.strippedBefore = x)
    (hy : r.strippedBehind = y) (q : ReadsAlike dialect g.blanked x y)
    (hmark : (a ++ b).head? ≠ some '\ufeff')
    (hsemicolon : b.head? = some ';' → ∀ range ∈ r.tree.moduleStatements 0, range.2 ≠ bytes a)
    (hseam : Seam x y)
    (hdirectives : Ignores.ofSource (a ++ (g.text ++ b)) = Ignores.ofSource (a ++ b))
    (hquiet : ∀ lit ∈ q.tree.occurrences o .code none 0, lit.lo < bytes x → bytes x < lit.hi →
      ∀ c, lit.candidate? (x ++ y) (x ++ y) = some (some c) →
        (c.verdict o (.ofSource (a ++ b))).isLetThrough = true)
    (hview : ∀ lit ∈ q.tree.occurrences o .code none 0, lit.InView x g.blanked.text y)
    (only : Option (List Nat)) :
    ∃ found, classify o dialect (a ++ b) only = .ok found ∧
      classify o dialect (a ++ (g.text ++ b)) only = .ok found := by
  subst hx hy
  have hstrip := r.strip_eq hmark
  have hstrip' := r.strip_spaced hmark hsemicolon
  have hmark' := Script.head?_strip hmark r.read_eq hstrip
  obtain ⟨cs, cs', hcs, hcs', hspaced⟩ := candidates_spaced q hmark' hseam.lineEnd hview hquiet
  refine ⟨reported o (.ofSource (a ++ b)) only cs, classify_of_candidates hstrip hcs, ?_⟩
  rw [classify_of_candidates hstrip' hcs', hdirectives]
  have hblank : ∀ c ∈ List.replicate g.text.length ' ', isBlank c = true := by
    intro c hc
    rw [List.eq_of_mem_replicate hc]
    rfl
  rw [reported_spaced hspaced hblank hseam]

end Classify

/-! ### Two scripts -/

/-- In a short script all literals are in view. -/
theorem inView_of_length {x gap y : List Char}
    (h : x.length + gap.length + y.length ≤ contextLength) (lit : Occurrence) :
    lit.InView x gap y where
  ahead := by
    rintro a outer m rfl - -
    simp only [List.length_append] at h
    exact .inr (.inl (by simp only [List.length_append]; omega))
  behind := by
    rintro m outer b rfl - -
    simp only [List.length_append] at h
    exact .inr (.inl (by simp only [List.length_append, List.length_reverse]; omega))

namespace Script.Tree

mutual

/-- Trees can be compared. -/
def decEq : ∀ t u : Tree, Decidable (t = u)
  | leaf kind text, leaf kind' text' =>
    decidable_of_iff (kind = kind' ∧ text = text') (by simp)
  | leaf _ _, node _ _ => .isFalse nofun
  | node _ _, leaf _ _ => .isFalse nofun
  | node kind parts, node kind' parts' =>
    have := decEqAll parts parts'
    decidable_of_iff (kind = kind' ∧ parts = parts') (by simp)

def decEqAll : ∀ ts us : List Tree, Decidable (ts = us)
  | [], [] => .isTrue rfl
  | [], _ :: _ => .isFalse nofun
  | _ :: _, [] => .isFalse nofun
  | t :: ts, u :: us =>
    have := decEq t u
    have := decEqAll ts us
    decidable_of_iff (t = u ∧ ts = us) (by simp)

end

instance : DecidableEq Tree := decEq

end Script.Tree

/-- A call with a text in it. -/
def greetingCall (gap : List Char) : List Char :=
  "f(".toList ++ (gap ++ "\"Hi\")".toList)

/-- The tree of the call, with trivia before the text. -/
def greetingTree (trivia : List Script.Tree) : Script.Tree :=
  .node .group [.node .expressionStatement [.node (.call false)
    [.leaf (.lexeme (.name "f")) ['f'],
      .node .arguments ([.leaf (.lexeme .plain) ['(']] ++ (trivia ++
        [.leaf (.lexeme .string) "\"Hi\"".toList, .leaf (.lexeme .plain) [')']]))]]]

theorem spaced_greetingTree (g : Gap) :
    (greetingTree []).Spaced g 2 (greetingTree [.leaf (.trivia g.kind) g.text]) :=
  .part .group [] [] (.part .expressionStatement [] []
    (.part (.call false) [.leaf (.lexeme (.name "f")) ['f']] []
      (.here .arguments [.leaf (.lexeme .plain) ['(']]
        [.leaf (.lexeme .string) "\"Hi\"".toList, .leaf (.lexeme .plain) [')']] .alone
        (.inr (by decide +kernel))) (.inr (by decide +kernel))) (.inr (by decide +kernel)))
    (.inl rfl)

/-- A comment that the rules see past. -/
def shortComment : Gap :=
  .comment " who ".toList (by decide +kernel)

/-- The call is read alike with a comment before the text. -/
def greetingReads : ReadsAlike .typedMarkup shortComment "f(".toList "\"Hi\")".toList where
  tree := greetingTree []
  spacedTree := greetingTree [.leaf (.trivia .blockComment) shortComment.text]
  read_eq := eq_ok_of_toOption (by decide +kernel)
  read_spaced := eq_ok_of_toOption (by decide +kernel)
  spaced := spaced_greetingTree shortComment

/-- The call is read alike with the spaces that stripping leaves of the comment. -/
def greetingReadsBlanked :
    ReadsAlike .typedMarkup shortComment.blanked "f(".toList "\"Hi\")".toList where
  tree := greetingTree []
  spacedTree := greetingTree [.leaf (.trivia .blank) shortComment.blanked.text]
  read_eq := eq_ok_of_toOption (by decide +kernel)
  read_spaced := eq_ok_of_toOption (by decide +kernel)
  spaced := spaced_greetingTree shortComment.blanked

/-- The text in the call is reported with the comment as without it. -/
theorem classify_spaced_greetingCall :
    let o : Options := ⟨[], ["f"], [], []⟩
    let literals := greetingReadsBlanked.tree.occurrences o .code none 0
    greetingReads.strippedBefore = "f(".toList ∧ greetingReads.strippedBehind = "\"Hi\")".toList ∧
      literals ≠ [] ∧
      ∃ found, classify o .typedMarkup (greetingCall []) none = .ok found ∧
        classify o .typedMarkup (greetingCall shortComment.text) none = .ok found := by
  intro o literals
  have hx : greetingReads.strippedBefore = "f(".toList := by decide +kernel
  have hy : greetingReads.strippedBehind = "\"Hi\")".toList := by decide +kernel
  have hout : ∀ lit ∈ literals, lit.hi ≤ 2 ∨ 2 ≤ lit.lo := by decide +kernel
  have hsize : bytes "f(".toList = 2 := by decide +kernel
  have hseam : Seam "f(".toList "\"Hi\")".toList := by
    refine ⟨?_, ?_, by decide +kernel⟩
    · rintro c hc d - hname
      obtain rfl : '(' = c := Option.some.inj hc
      exact absurd hname (by decide +kernel)
    · rintro c hc d - hsign
      obtain rfl : '(' = c := Option.some.inj hc
      exact absurd hsign (by decide)
  have hdirectives : Ignores.ofSource (greetingCall shortComment.text) =
      Ignores.ofSource (greetingCall []) := by rfl
  exact ⟨hx, hy, by decide +kernel, classify_spaced greetingReads hx hy greetingReadsBlanked
    (by decide +kernel) (fun hhead => absurd hhead (by decide +kernel)) hseam hdirectives
    (fun lit hlit hlo hhi => by have hapart := hout lit hlit; omega)
    (fun lit _ => inView_of_length (by decide +kernel) lit) none⟩

/-- A text that the status is compared with. -/
def comparedStatus (gap : List Char) : List Char :=
  "<p>\x7bstatus ===".toList ++ (gap ++ " \"active\"\x7d</p>".toList)

/-- A comment that is longer than what the rules see. -/
def longComment : Gap :=
  .comment " the current state, as the server reports it, or ".toList (by decide +kernel)

/-- **A long comment hides what a literal is compared with**, and the literal is reported. -/
theorem classify_comparedStatus :
    (classify ⟨[], [], [], []⟩ .typedMarkup (comparedStatus []) none).toOption = some [] ∧
      (classify ⟨[], [], [], []⟩ .typedMarkup (comparedStatus longComment.text) none).toOption =
        some [⟨1, "active".toList⟩] := by
  constructor <;> decide +kernel

end Untranslated
