import Mathlib.Data.List.Perm.Basic
import Untranslated.Proofs.RecordedLiterals

/-!
# Recorded literals do not overlap

Two parts of a tree either lie one in the other or share no byte. A template that is recorded is
one literal with all it holds, so no recorded literal lies in another: the literals that
candidates are made from stand apart in the text that was read.

* `Tree.Place.unique`: a way leads to one part.
* `Tree.Place.apart_or_suffix`: parts neither of which is in the other share no byte.
* `exists_apart_literals`: the candidates of a script are made from literals that stand apart.
-/

namespace Untranslated.Script

open Untranslated.Script.Tree (node leaf sizeAll)

/-! ### Two parts of a tree -/

namespace Tree

variable {t u u' : Tree} {way way' : List Step} {lo lo' : Nat}

/-- A way leads to one part, and to one offset. -/
theorem Place.unique (h : t.Place way lo u) (h' : t.Place way lo' u') : lo = lo' ∧ u = u' := by
  induction h generalizing lo' u' with
  | root =>
    cases h'
    exact ⟨rfl, rfl⟩
  | part step _ ih =>
    cases h' with
    | part _ h' =>
      obtain ⟨rfl, -⟩ := ih h'
      exact ⟨rfl, rfl⟩

/-- Parts at the end of one way are one part. -/
theorem spot_eq_of_way {x x' : Spot} (h : t.Place x.way x.lo x.tree)
    (h' : t.Place x'.way x'.lo x'.tree) (hway : x.way = x'.way) : x = x' := by
  obtain ⟨way, lo, u⟩ := x
  obtain ⟨way', lo', u'⟩ := x'
  dsimp only at hway
  subst hway
  obtain ⟨hlo, htree⟩ := h.unique h'
  rw [Spot.mk.injEq]
  exact ⟨rfl, hlo, htree⟩

theorem size_parts (step : Step) : (node step.kind step.parts).size =
    sizeAll step.before + (step.part.size + sizeAll step.after) := by
  rw [size, Step.parts, sizeAll_append, sizeAll]

/-- A part lies inside of every part on the way to it. -/
theorem Place.exists_around (h : t.Place way' lo' u') (hsuffix : way <:+ way') :
    ∃ lo u, t.Place way lo u ∧ lo ≤ lo' ∧ lo' + u'.size ≤ lo + u.size := by
  induction h with
  | root =>
    obtain rfl := List.suffix_nil.1 hsuffix
    exact ⟨0, t, .root, Nat.le_refl _, Nat.le_refl _⟩
  | @part way' lo' step h ih =>
    rcases List.suffix_cons_iff.1 hsuffix with rfl | hsuffix
    · exact ⟨_, _, .part step h, Nat.le_refl _, Nat.le_refl _⟩
    · obtain ⟨lo, u, hplace, hlo, hhi⟩ := ih hsuffix
      rw [size_parts] at hhi
      exact ⟨lo, u, hplace, by omega, by omega⟩

/-- A way that goes on from another takes some step next. -/
theorem eq_or_exists_step (h : way <:+ way') : way = way' ∨ ∃ step, step :: way <:+ way' := by
  obtain ⟨inner, rfl⟩ := h
  rcases List.eq_nil_or_concat inner with rfl | ⟨inner, step, rfl⟩
  · exact .inl rfl
  · exact .inr ⟨step, inner, by rw [List.concat_eq_append, List.append_assoc,
      List.singleton_append]⟩

/-- The step that a longer way takes next is one from the part at the end of the shorter. -/
theorem Place.of_step {step : Step} (h : t.Place way lo u) (h' : t.Place way' lo' u')
    (hstep : step :: way <:+ way') : u = node step.kind step.parts ∧
      lo + sizeAll step.before ≤ lo' ∧
      lo' + u'.size ≤ lo + sizeAll step.before + step.part.size := by
  obtain ⟨_, _, hplace, hlo, hhi⟩ := h'.exists_around hstep
  cases hplace with
  | part _ hnode =>
    obtain ⟨rfl, hsame⟩ := h.unique hnode
    exact ⟨hsame, hlo, hhi⟩

/-- Of two steps from one node the one with less before it ends first. -/
theorem sizeAll_before_le {step step' : Step} (hparts : step.parts = step'.parts)
    (hlength : step.before.length < step'.before.length) :
    sizeAll step.before + step.part.size ≤ sizeAll step'.before := by
  have hthis : step.before ++ [step.part] <+: step.parts :=
    ⟨step.after, by rw [Step.parts, List.append_assoc, List.singleton_append]⟩
  have hthat : step'.before <+: step.parts := hparts ▸ List.prefix_append _ _
  have hbefore : step.before ++ [step.part] <+: step'.before := by
    apply List.prefix_of_prefix_length_le hthis hthat
    rw [List.length_append, List.length_singleton]
    omega
  obtain ⟨between, hbetween⟩ := hbefore
  rw [← hbetween, sizeAll_append, sizeAll_append, sizeAll, sizeAll]
  omega

/-- Two steps from one node with as much before them are the same. -/
theorem step_eq_of_length {step step' : Step} (hkind : step.kind = step'.kind)
    (hparts : step.parts = step'.parts)
    (hlength : step.before.length = step'.before.length) : step = step' := by
  obtain ⟨kind, before, part, after⟩ := step
  obtain ⟨kind', before', part', after'⟩ := step'
  obtain ⟨hbefore, hrest⟩ := List.append_inj hparts hlength
  obtain ⟨hpart, hafter⟩ := List.cons.inj hrest
  dsimp only at hkind hbefore hpart hafter
  rw [hkind, hbefore, hpart, hafter]

/-- **Parts neither of which is in the other share no byte.** -/
theorem Place.apart_or_suffix (h : t.Place way lo u) (h' : t.Place way' lo' u') :
    way <:+ way' ∨ way' <:+ way ∨ lo + u.size ≤ lo' ∨ lo' + u'.size ≤ lo := by
  -- Along the first way: while the second follows it, the step that it takes next decides.
  induction h with
  | root => exact .inl List.nil_suffix
  | @part way lo step h ih =>
    have hsize := size_parts step
    rcases ih with hsuffix | hsuffix | hapart | hapart
    · rcases eq_or_exists_step hsuffix with rfl | ⟨step', hstep⟩
      · exact .inr (.inl (List.suffix_cons step way))
      · obtain ⟨hsame, hlo, hhi⟩ := h.of_step h' hstep
        obtain ⟨hkind, hparts⟩ := node.inj hsame
        rcases Nat.lt_trichotomy step.before.length step'.before.length with hlt | heq | hgt
        · have hle := sizeAll_before_le hparts hlt
          exact .inr (.inr (.inl (by omega)))
        · obtain rfl := step_eq_of_length hkind hparts heq
          exact .inl hstep
        · have hle := sizeAll_before_le hparts.symm hgt
          exact .inr (.inr (.inr (by omega)))
    · exact .inr (.inl (hsuffix.trans (List.suffix_cons step way)))
    · exact .inr (.inr (.inl (by omega)))
    · exact .inr (.inr (.inr (by omega)))

end Tree

/-! ### No recorded literal is in another -/

section Nested

variable {o : Options} {t : Tree} {x x' : Spot}

/-- **Nothing inside of a recorded literal is recorded**: only a template holds anything, and one
that is recorded is not looked into. -/
theorem way_eq_of_isRecorded (hplace : t.Place x.way x.lo x.tree) (h : x.IsRecorded o)
    (hplace' : t.Place x'.way x'.lo x'.tree) (h' : x'.IsRecorded o)
    (hsuffix : x.way <:+ x'.way) : x.way = x'.way := by
  rcases Tree.eq_or_exists_step hsuffix with heq | ⟨step, hstep⟩
  · exact heq
  · exfalso
    obtain ⟨htree, -, -⟩ := hplace.of_step hplace' hstep
    have htemplate : ¬(step.kind = .template ∧ Reports o (scopeOf x.way)) :=
      (reached_cons.1 (h'.1.of_suffix hstep)).2.1
    have hliteral := h.2
    rw [htree] at hliteral
    split at hliteral
    case h_3 heq => exact htemplate ⟨(Tree.node.inj heq).1, hliteral⟩
    case h_5 => exact hliteral
    all_goals contradiction

end Nested

/-! ### The literals of candidates -/

/-- Where a part ends. -/
def Spot.hi (x : Spot) : Nat :=
  x.lo + x.tree.size

/-- The parts have no byte in common, and neither is in the other. -/
structure Spot.Apart (x x' : Spot) : Prop where
  range : x.hi ≤ x'.lo ∨ x'.hi ≤ x.lo
  not_around : ¬x.way <:+ x'.way
  not_inside : ¬x'.way <:+ x.way

theorem Spot.Apart.symm {x x' : Spot} (h : x.Apart x') : x'.Apart x :=
  ⟨h.range.symm, h.not_inside, h.not_around⟩

/-- The candidate is made from the part, a literal of the tree that is recorded. -/
structure MadeFrom (o : Options) (t : Tree) (x : Spot) (c : Candidate) : Prop where
  place : t.Place x.way x.lo x.tree
  isRecorded : x.IsRecorded o
  /-- What is recorded of the part has its range, and is read as the candidate. -/
  literal : ∃ y, x.occurrence? o = some y ∧ y.lo = x.lo ∧ y.hi = x.hi ∧
    y.candidate? t.text t.text = some (some c)
  nonempty : x.lo < x.hi

section Literals

variable {o : Options} {t : Tree}

theorem content_nil (d : Delimiter) : (content d []).1 = [] := by
  cases d <;> simp [content, dropClosing]

/-- The part of a recorded literal with a candidate is not empty: its body is not. -/
theorem MadeFrom.of_mem_recorded {r : Spot × Candidate} (h : r ∈ recorded o t) :
    MadeFrom o t r.1 r.2 := by
  obtain ⟨hplace, hcandidate⟩ := mem_recorded.1 h
  obtain ⟨hrecorded, hbody⟩ := (isSome_candidate? hplace).1 (Option.isSome_of_eq_some hcandidate)
  obtain ⟨y, hy, hc⟩ := Option.bind_eq_some_iff.1 hcandidate
  obtain ⟨hlo, hhi, hcontent⟩ := spec_of_literal? (literal?_of_occurrence? hy) []
  have hhi : y.hi = r.1.hi := by rw [hhi, hlo, Spot.hi, Tree.size_eq]
  refine ⟨hplace, hrecorded, ⟨y, hy, hlo, hhi, by rw [candidate?_of_place hplace hy, hc]⟩, ?_⟩
  rw [Spot.hi, Tree.size_eq]
  cases htext : r.1.tree.text with
  | cons c text =>
    have hpos : 0 < Text.bytes (c :: text) := by
      rw [Text.bytes_cons]
      have := c.utf8Size_pos
      omega
    omega
  | nil =>
    exfalso
    apply hbody
    rw [← hcontent, htext, content_nil]
    rfl

theorem apart_of_mem_recorded {r r' : Spot × Candidate} (h : r ∈ recorded o t)
    (h' : r' ∈ recorded o t) (hne : r ≠ r') : r.1.Apart r'.1 := by
  have hmade := MadeFrom.of_mem_recorded h
  have hmade' := MadeFrom.of_mem_recorded h'
  -- The way tells the part, and the part tells the candidate.
  have hway : r.1.way ≠ r'.1.way := by
    intro hway
    have hspot := Tree.spot_eq_of_way hmade.place hmade'.place hway
    have hcandidate := (mem_recorded.1 h).2
    rw [hspot, (mem_recorded.1 h').2] at hcandidate
    exact hne (Prod.ext hspot (Option.some.inj hcandidate).symm)
  have haround : ¬r.1.way <:+ r'.1.way := fun hsuffix =>
    hway (way_eq_of_isRecorded hmade.place hmade.isRecorded hmade'.place hmade'.isRecorded hsuffix)
  have hinside : ¬r'.1.way <:+ r.1.way := fun hsuffix =>
    hway (way_eq_of_isRecorded hmade'.place hmade'.isRecorded hmade.place hmade.isRecorded
      hsuffix).symm
  refine ⟨?_, haround, hinside⟩
  rcases hmade.place.apart_or_suffix hmade'.place with hsuffix | hsuffix | hrange
  · exact absurd hsuffix haround
  · exact absurd hsuffix hinside
  · exact hrange

theorem pairwise_recorded : (recorded o t).Pairwise fun r r' => r.1.Apart r'.1 :=
  (nodup_recorded o t).of_map.pairwise_of_forall_ne fun _ h _ h' hne =>
    apart_of_mem_recorded h h' hne

/-- Sorting images is sorting what they are images of. -/
theorem exists_perm_map {α β : Type} {f : α → β} {l : List α} {m : List β}
    (h : m.Perm (l.map f)) : ∃ k : List α, m = k.map f ∧ k.Perm l := by
  have hcomp := congrFun (congrFun (List.eq_map_comp_perm f) m) l
  exact hcomp.mpr h

variable (o)

/-- **The candidates of a script are made from literals that stand apart**: each from its own
recorded literal, a non-empty stretch of the script, and no two of them from literals that share
a byte or lie one in the other. -/
theorem exists_apart_literals {dialect : Dialect} {s : List Char} (hmark : s.head? ≠ some '\ufeff')
    (h : read dialect s = .ok t) :
    ∃ found : List (Spot × Candidate), candidates o dialect s = .ok (found.map Prod.snd) ∧
      (∀ r ∈ found, MadeFrom o t r.1 r.2 ∧
        ∃ a b, s = a ++ r.1.tree.text ++ b ∧ Text.bytes a = r.1.lo) ∧
      found.Pairwise fun r r' => r.1.Apart r'.1 := by
  have hparse := parse_of_read h
  rw [dropMark_of_head? hmark] at hparse
  have htext : t.text = s := text_of_parse hparse
  have hperm : (((t.occurrences o .code none 0).filterMap (candidateOf? t)).mergeSort
      fun a b => a.line ≤ b.line).Perm ((recorded o t).map Prod.snd) := by
    rw [map_snd_recorded]
    exact (List.mergeSort_perm _ _).trans ((occurrences_perm o t).filterMap _)
  obtain ⟨found, hfound, hmem⟩ := exists_perm_map hperm
  refine ⟨found, by rw [candidates_eq o t hmark h, hfound], fun r hr => ?_, ?_⟩
  · have hmade := MadeFrom.of_mem_recorded (hmem.mem_iff.1 hr)
    rw [← htext]
    exact ⟨hmade, hmade.place.exists_text⟩
  · exact (hmem.pairwise_iff fun h => h.symm).2 pairwise_recorded

end Literals

/-- Markup with a template that holds a call, a string and another template. -/
def nestedTemplates : List Char :=
  "<p>\x7b`one $\x7bf('two')\x7d $\x7b`three`\x7d`\x7d\x7b'four'\x7d</p>".toList

/-- The template and the string after it. -/
def nestedTexts : List (List Char) :=
  ["one $\x7bf('two')\x7d $\x7b`three`\x7d".toList, "four".toList]

/-- The outer template is one literal, the string after it another. -/
theorem exists_apart_literals_nestedTemplates :
    ∃ (t : Tree) (found : List (Spot × Candidate)), nestedTemplates.head? ≠ some '\ufeff' ∧
      read .markup nestedTemplates = .ok t ∧
      candidates ⟨[], ["f"], [], []⟩ .markup nestedTemplates = .ok (found.map Prod.snd) ∧
      ((found.map Prod.snd).map (·.text)).Perm nestedTexts ∧
      found.Pairwise fun r r' => r.1.Apart r'.1 := by
  let o : Options := ⟨[], ["f"], [], []⟩
  have hmark : nestedTemplates.head? ≠ some '\ufeff' := by decide +kernel
  have htexts : (read .markup nestedTemplates).toOption.map (fun t =>
      ((t.occurrences o .code none 0).filterMap (candidateOf? t)).map (·.text)) =
      some nestedTexts := by decide +kernel
  cases h : read .markup nestedTemplates with
  | error e =>
    rw [h] at htexts
    cases htexts
  | ok t =>
    obtain ⟨found, hfound, -, hapart⟩ := exists_apart_literals o hmark h
    rw [h] at htexts
    have hsorted := hfound.symm.trans (candidates_eq o t hmark h)
    refine ⟨t, found, hmark, rfl, hfound, ?_, hapart⟩
    rw [← Option.some.inj htexts, Except.ok.inj hsorted]
    exact (List.mergeSort_perm _ _).map _

end Untranslated.Script
