import Mathlib.Data.List.Forall2
import Untranslated.Extraction
import Untranslated.Proofs.Places

/-!
# Trees with a gap

A gap, spaces or a comment on one line, is put between two lexemes of a script and changes none of
them: the tree has more trivia at one place and is otherwise the same (`Tree.Spaced`). No question
that stripping or extraction asks about a node notices (`Tree.Alike`), since each of them is about
lexemes and nodes.

* `Gap`: what is put between two lexemes.
* `Tree.Spaced.exists_alike`: a node with a gap somewhere inside answers as it did.
-/

namespace Untranslated.Script

open Text (bytes)

/-! ### Gaps -/

/-- What is put between two lexemes: spaces, or a block comment on one line. -/
inductive Gap
  | spaces (count : Nat)
  | comment (body : List Char) (oneLine : '\n' ∉ body)

namespace Gap

/-- The text of a gap. -/
def text : Gap → List Char
  | spaces count => List.replicate count ' '
  | comment body _ => '/' :: '*' :: (body ++ ['*', '/'])

/-- The trivia that a gap is. -/
def kind : Gap → Trivia
  | spaces _ => .blank
  | comment _ _ => .blockComment

/-- What stripping leaves of a gap. -/
def blanked (g : Gap) : Gap :=
  spaces g.text.length

theorem newline_notMem_text (g : Gap) : '\n' ∉ g.text := by
  cases g with
  | spaces count => simp [text]
  | comment body oneLine => simp [text, oneLine]

/-- Trivia before and after a gap is put into it, behind the text `lead`: the gap stands between
two trivia, goes on with a blank, or cuts one in two. -/
inductive Widens (g : Gap) : List Char → List Tree → List Tree → Prop
  | alone : g.Widens [] [] [.leaf (.trivia g.kind) g.text]
  | widened (u v : List Char) (blank : g.kind = .blank) :
      g.Widens u [.leaf (.trivia .blank) (u ++ v)] [.leaf (.trivia .blank) (u ++ (g.text ++ v))]
  | split (u v : List Char) :
      g.Widens u [.leaf (.trivia .blank) (u ++ v)]
        [.leaf (.trivia .blank) u, .leaf (.trivia g.kind) g.text, .leaf (.trivia .blank) v]

end Gap

namespace Tree

/-- **The tree has a gap at the offset `p`**, and is otherwise the tree without it. Only a group may
begin or end with the gap: all other nodes begin and end with a lexeme. -/
inductive Spaced (g : Gap) : Nat → Tree → Tree → Prop
  | here {lead : List Char} {old new : List Tree} (kind : NodeKind) (before after : List Tree)
      (widens : g.Widens lead old new)
      (inside : kind = .group ∨ sizeAll before ≠ 0 ∧ sizeAll after ≠ 0) :
      Spaced g (sizeAll before + bytes lead) (node kind (before ++ (old ++ after)))
        (node kind (before ++ (new ++ after)))
  | part {p : Nat} {t t' : Tree} (kind : NodeKind) (before after : List Tree)
      (spaced : Spaced g p t t')
      (inside : kind = .group ∨
        0 < sizeAll before + p ∧ sizeAll before + p < sizeAll (before ++ t :: after)) :
      Spaced g (sizeAll before + p) (node kind (before ++ t :: after))
        (node kind (before ++ t' :: after))

/-! ### What is asked about parts -/

/-- The parts `ts` of a node answer all that is asked about them as the parts `us` do. -/
structure PartsAlike (ts us : List Tree) : Prop where
  headPath : headPath ts = headPath us
  tailPath : tailPath ts = tailPath us
  lastName : lastName ts = lastName us
  solid : (ts.filter isSolid).length = (us.filter isSolid).length
  requireName : (ts.find? isSolid).any isRequireName = (us.find? isSolid).any isRequireName
  headIsRequire : headIsRequire ts = headIsRequire us
  tailIsRequire : tailIsRequire ts = tailIsRequire us
  anyRequires : ts.any requires = us.any requires
  anyVariables : ts.any variablesRequire = us.any variablesRequire
  declarator : (node .declarator ts).requires = (node .declarator us).requires
  spelling : (node .tagName ts).spelling = (node .tagName us).spelling
  opening : isRaw [node .opening ts] = isRaw [node .opening us]
  isRaw : isRaw ts = isRaw us
  attributeSpelling : attributeSpelling ts = attributeSpelling us
  pieces : pieces ts = pieces us

/-- A node of a kind answers with the parts `ts` as with the parts `us`. -/
structure Alike (kind : NodeKind) (ts us : List Tree) : Prop where
  path : (node kind ts).path = (node kind us).path
  isRequire : (node kind ts).isRequire = (node kind us).isRequire
  requires : (node kind ts).requires = (node kind us).requires
  variablesRequire : (node kind ts).variablesRequire = (node kind us).variablesRequire
  isModuleStatement : (node kind ts).isModuleStatement = (node kind us).isModuleStatement
  initializer :
    (node .declarator [node kind ts]).requires = (node .declarator [node kind us]).requires
  spelling : (node kind ts).spelling = (node kind us).spelling
  isRaw : isRaw [node kind ts] = isRaw [node kind us]
  partScope : ∀ s part, partScope s kind ts part = partScope s kind us part
  tagOf : tagOf kind ts = tagOf kind us
  pieces : pieces ts = pieces us

theorem callee?_congr {ts us : List Tree} (h : PartsAlike ts us) (kind : NodeKind) :
    callee? kind ts = callee? kind us := by
  cases kind <;> simp [callee?, h.headPath, h.tailPath]

/-- Parts that answer alike make nodes that do. -/
theorem PartsAlike.alike {ts us : List Tree} (h : PartsAlike ts us) (kind : NodeKind) :
    Alike kind ts us where
  path := by cases kind <;> simp [path, h.headPath, h.tailPath, h.lastName, h.solid]
  isRequire := by
    cases kind <;> try rfl
    case paren => simp [isRequire, h.solid, h.tailIsRequire]
    case await => simp [isRequire, h.tailIsRequire]
    case member optional => cases optional <;> simp [isRequire, h.headIsRequire]
    case index optional => cases optional <;> simp [isRequire, h.headIsRequire]
    case call optional => cases optional <;> simp [isRequire, h.requireName]
  requires := by cases kind <;> first | rfl | exact h.declarator
  variablesRequire := by cases kind <;> first | rfl | exact h.anyRequires
  isModuleStatement := by
    cases kind <;> first | rfl | exact h.anyVariables | exact h.headIsRequire
  initializer := by
    cases kind <;> try rfl
    case initializer => simp [requires, h.tailIsRequire]
  spelling := h.spelling
  isRaw := by
    cases kind <;> try rfl
    case opening => exact h.opening
  partScope := fun s part => by
    cases kind <;>
      simp only [partScope, callee?_congr h, h.isRaw, h.attributeSpelling]
  tagOf := by simp [tagOf, h.headPath]
  pieces := h.pieces

/-! ### Trivia between parts -/

section Skipped

variable {skipped : List Tree} (hskipped : ∀ t ∈ skipped, t.isSolid = false)

include hskipped

/-- Nothing that only lexemes and nodes answer is answered by trivia. -/
theorem any_skip {f : Tree → Bool} (hf : ∀ t : Tree, t.isSolid = false → f t = false)
    (before after : List Tree) :
    (before ++ (skipped ++ after)).any f = (before ++ after).any f := by
  have hnone : skipped.any f = false :=
    List.any_eq_false.2 fun t ht => by simp [hf t (hskipped t ht)]
  simp [hnone]

theorem find?_skip {f : Tree → Bool} (hf : ∀ t : Tree, t.isSolid = false → f t = false)
    (before after : List Tree) :
    (before ++ (skipped ++ after)).find? f = (before ++ after).find? f := by
  have hnone : skipped.find? f = none :=
    List.find?_eq_none.2 fun t ht => by simp [hf t (hskipped t ht)]
  simp [List.find?_append, hnone]

theorem filterMap_skip {α : Type} {f : Tree → Option α}
    (hf : ∀ t : Tree, t.isSolid = false → f t = none) (before after : List Tree) :
    (before ++ (skipped ++ after)).filterMap f = (before ++ after).filterMap f := by
  have hnone : skipped.filterMap f = [] :=
    List.filterMap_eq_nil_iff.2 fun t ht => hf t (hskipped t ht)
  simp [List.filterMap_append, hnone]

theorem foldl_skip {α : Type} {f : α → Tree → α}
    (hf : ∀ (x : α) (t : Tree), t.isSolid = false → f x t = x) (x : α)
    (before after : List Tree) :
    (before ++ (skipped ++ after)).foldl f x = (before ++ after).foldl f x := by
  have hsame : ∀ y : α, skipped.foldl f y = y := by
    intro y
    induction skipped with
    | nil => rfl
    | cons t ts ih =>
      obtain ⟨ht, hts⟩ := List.forall_mem_cons.1 hskipped
      rw [List.foldl_cons, hf y t ht, ih hts]
  rw [List.foldl_append, List.foldl_append, List.foldl_append, hsame]

theorem headPath_skip (before after : List Tree) :
    headPath (before ++ (skipped ++ after)) = headPath (before ++ after) := by
  induction before with
  | nil =>
    induction skipped with
    | nil => rfl
    | cons t ts ih =>
      obtain ⟨ht, hts⟩ := List.forall_mem_cons.1 hskipped
      have hrest := ih hts
      rw [List.nil_append] at hrest ⊢
      rw [List.cons_append, headPath, ht]
      exact hrest
  | cons t before ih =>
    rw [List.cons_append, List.cons_append, headPath, headPath, ih]

theorem headIsRequire_skip (before after : List Tree) :
    headIsRequire (before ++ (skipped ++ after)) = headIsRequire (before ++ after) := by
  induction before with
  | nil =>
    induction skipped with
    | nil => rfl
    | cons t ts ih =>
      obtain ⟨ht, hts⟩ := List.forall_mem_cons.1 hskipped
      have hrest := ih hts
      rw [List.nil_append] at hrest ⊢
      rw [List.cons_append, headIsRequire, ht]
      exact hrest
  | cons t before ih =>
    rw [List.cons_append, List.cons_append, headIsRequire, headIsRequire, ih]

end Skipped

/-- The name of a member is its last part, whatever comes before. -/
theorem lastName_append (before : List Tree) {after : List Tree} (h : after ≠ []) :
    lastName (before ++ after) = lastName after := by
  induction before with
  | nil => rfl
  | cons t before ih =>
    rw [List.cons_append, lastName, ih]
    intro spelling text _ hnil
    exact h (List.append_eq_nil_iff.1 hnil).2

/-- A part that is none of what is asked for. -/
theorem eq_trivia_of_isSolid {t : Tree} (h : t.isSolid = false) :
    ∃ kind text, t = leaf (.trivia kind) text := by
  unfold isSolid at h
  split at h
  · exact ⟨_, _, rfl⟩
  · cases h

/-- **Trivia between the parts of a node says nothing.** -/
theorem partsAlike_skip {skipped : List Tree} (hskipped : ∀ t ∈ skipped, t.isSolid = false)
    {before after : List Tree} (hbefore : before ≠ []) (hafter : after ≠ []) :
    PartsAlike (before ++ (skipped ++ after)) (before ++ after) where
  headPath := headPath_skip hskipped before after
  tailPath := by
    obtain ⟨t, before, rfl⟩ := List.exists_cons_of_ne_nil hbefore
    exact headPath_skip hskipped before after
  lastName := by
    rw [lastName_append before (by simp [hafter]), lastName_append skipped hafter,
      lastName_append before hafter]
  solid := by
    have hnone : skipped.filter isSolid = [] :=
      List.filter_eq_nil_iff.2 fun t ht => by simp [hskipped t ht]
    simp [hnone]
  requireName := by rw [find?_skip hskipped fun t ht => ht]
  headIsRequire := headIsRequire_skip hskipped before after
  tailIsRequire := by
    obtain ⟨t, before, rfl⟩ := List.exists_cons_of_ne_nil hbefore
    exact headIsRequire_skip hskipped before after
  anyRequires := by
    apply any_skip hskipped
    intro t ht
    obtain ⟨kind, text, rfl⟩ := eq_trivia_of_isSolid ht
    rfl
  anyVariables := by
    apply any_skip hskipped
    intro t ht
    obtain ⟨kind, text, rfl⟩ := eq_trivia_of_isSolid ht
    rfl
  declarator := by
    apply any_skip hskipped
    intro t ht
    obtain ⟨kind, text, rfl⟩ := eq_trivia_of_isSolid ht
    rfl
  spelling := by
    apply foldl_skip hskipped
    intro name t ht
    obtain ⟨kind, text, rfl⟩ := eq_trivia_of_isSolid ht
    rfl
  opening := by
    simp only [isRaw, List.any_cons, List.any_nil, Bool.or_false]
    apply any_skip hskipped
    intro t ht
    obtain ⟨kind, text, rfl⟩ := eq_trivia_of_isSolid ht
    rfl
  isRaw := by
    apply any_skip hskipped
    intro t ht
    obtain ⟨kind, text, rfl⟩ := eq_trivia_of_isSolid ht
    rfl
  attributeSpelling := by
    rw [attributeSpelling, find?_skip hskipped]
    · rfl
    · intro t ht
      obtain ⟨kind, text, rfl⟩ := eq_trivia_of_isSolid ht
      rfl
  pieces := by
    apply filterMap_skip hskipped
    intro t ht
    obtain ⟨kind, text, rfl⟩ := eq_trivia_of_isSolid ht
    rfl

/-! ### A part that answers alike -/

@[simp] theorem isSolid_node (kind : NodeKind) (parts : List Tree) :
    (node kind parts).isSolid = true := rfl

section Replaced

variable {kind : NodeKind} {ts us : List Tree} (h : Alike kind ts us)

include h

theorem headPath_replace (before after : List Tree) :
    headPath (before ++ node kind ts :: after) = headPath (before ++ node kind us :: after) := by
  induction before with
  | nil => exact h.path
  | cons t before ih => rw [List.cons_append, List.cons_append, headPath, headPath, ih]

theorem headIsRequire_replace (before after : List Tree) :
    headIsRequire (before ++ node kind ts :: after) =
      headIsRequire (before ++ node kind us :: after) := by
  induction before with
  | nil => exact h.isRequire
  | cons t before ih =>
    rw [List.cons_append, List.cons_append, headIsRequire, headIsRequire, ih]

omit h in
theorem lastName_replace (before after : List Tree) :
    lastName (before ++ node kind ts :: after) = lastName (before ++ node kind us :: after) := by
  rw [lastName_append before (by simp), lastName_append before (by simp)]
  cases after <;> rfl

omit h in
theorem any_replace {f : Tree → Bool} (hf : f (node kind ts) = f (node kind us))
    (before after : List Tree) :
    (before ++ node kind ts :: after).any f = (before ++ node kind us :: after).any f := by
  simp [hf]

/-- The first attribute name is where it was, and is spelled as it was. -/
theorem attributeSpelling_replace (before after : List Tree) :
    attributeSpelling (before ++ node kind ts :: after) =
      attributeSpelling (before ++ node kind us :: after) := by
  unfold attributeSpelling
  rw [List.find?_append, List.find?_append]
  generalize before.find? _ = found
  cases found with
  | some t => rfl
  | none =>
    by_cases hkind : kind = .attributeName
    · subst hkind
      exact h.spelling
    · rw [List.find?_cons_of_neg, List.find?_cons_of_neg]
      all_goals
        cases kind <;> first | exact absurd rfl hkind | exact Bool.false_ne_true

/-- **A part of a node that answers alike says nothing new.** -/
theorem partsAlike_replace (before after : List Tree) :
    PartsAlike (before ++ node kind ts :: after) (before ++ node kind us :: after) where
  headPath := headPath_replace h before after
  tailPath := by
    cases before with
    | nil => rfl
    | cons t before => exact headPath_replace h before after
  lastName := lastName_replace before after
  solid := by simp [List.filter_cons]
  requireName := by
    rw [List.find?_append, List.find?_append]
    cases before.find? isSolid <;> rfl
  headIsRequire := headIsRequire_replace h before after
  tailIsRequire := by
    cases before with
    | nil => rfl
    | cons t before => exact headIsRequire_replace h before after
  anyRequires := any_replace h.requires before after
  anyVariables := any_replace h.variablesRequire before after
  declarator := by
    have hpart := h.initializer
    simp only [requires, List.any_cons, List.any_nil, Bool.or_false] at hpart
    exact any_replace hpart before after
  spelling := by
    unfold spelling
    dsimp only
    rw [List.foldl_append, List.foldl_append]
    rfl
  opening := by
    simp only [isRaw, List.any_cons, List.any_nil, Bool.or_false]
    refine any_replace ?_ before after
    by_cases hkind : kind = .tagName
    · subst hkind
      dsimp only
      rw [h.spelling]
    · cases kind <;> first | exact absurd rfl hkind | rfl
  isRaw := by
    have hpart := h.isRaw
    simp only [isRaw, List.any_cons, List.any_nil, Bool.or_false] at hpart
    exact any_replace hpart before after
  attributeSpelling := attributeSpelling_replace h before after
  pieces := by simp [pieces]

end Replaced

/-! ### Trees with a gap answer alike -/

theorem Alike.symm {kind : NodeKind} {ts us : List Tree} (h : Alike kind ts us) :
    Alike kind us ts where
  path := h.path.symm
  isRequire := h.isRequire.symm
  requires := h.requires.symm
  variablesRequire := h.variablesRequire.symm
  isModuleStatement := h.isModuleStatement.symm
  initializer := h.initializer.symm
  spelling := h.spelling.symm
  isRaw := h.isRaw.symm
  partScope := fun s part => (h.partScope s part).symm
  tagOf := h.tagOf.symm
  pieces := h.pieces.symm

theorem Alike.trans {kind : NodeKind} {ts us vs : List Tree} (h : Alike kind ts us)
    (h' : Alike kind us vs) : Alike kind ts vs where
  path := h.path.trans h'.path
  isRequire := h.isRequire.trans h'.isRequire
  requires := h.requires.trans h'.requires
  variablesRequire := h.variablesRequire.trans h'.variablesRequire
  isModuleStatement := h.isModuleStatement.trans h'.isModuleStatement
  initializer := h.initializer.trans h'.initializer
  spelling := h.spelling.trans h'.spelling
  isRaw := h.isRaw.trans h'.isRaw
  partScope := fun s part => (h.partScope s part).trans (h'.partScope s part)
  tagOf := h.tagOf.trans h'.tagOf
  pieces := h.pieces.trans h'.pieces

/-- Of a group only its parts in order are ever asked about, so trivia may be at its ends. -/
theorem alike_group_skip {skipped : List Tree} (hskipped : ∀ t ∈ skipped, t.isSolid = false)
    (before after : List Tree) :
    Alike .group (before ++ (skipped ++ after)) (before ++ after) where
  path := rfl
  isRequire := rfl
  requires := rfl
  variablesRequire := rfl
  isModuleStatement := rfl
  initializer := rfl
  spelling := by
    apply foldl_skip hskipped
    intro name t ht
    obtain ⟨kind, text, rfl⟩ := eq_trivia_of_isSolid ht
    rfl
  isRaw := rfl
  partScope := fun _ _ => rfl
  tagOf := rfl
  pieces := by
    apply filterMap_skip hskipped
    intro t ht
    obtain ⟨kind, text, rfl⟩ := eq_trivia_of_isSolid ht
    rfl

theorem alike_skip {kind : NodeKind} {skipped : List Tree}
    (hskipped : ∀ t ∈ skipped, t.isSolid = false) {before after : List Tree}
    (hinside : kind = .group ∨ sizeAll before ≠ 0 ∧ sizeAll after ≠ 0) :
    Alike kind (before ++ (skipped ++ after)) (before ++ after) := by
  rcases hinside with rfl | ⟨hbefore, hafter⟩
  · exact alike_group_skip hskipped before after
  · refine (partsAlike_skip hskipped ?_ ?_).alike kind
    · rintro rfl
      exact hbefore rfl
    · rintro rfl
      exact hafter rfl

end Tree

theorem Gap.Widens.isSolid_eq_false {g : Gap} {lead : List Char} {old new : List Tree}
    (h : g.Widens lead old new) :
    (∀ t ∈ old, t.isSolid = false) ∧ ∀ t ∈ new, t.isSolid = false := by
  cases h <;> simp [Tree.isSolid]

namespace Tree

/-- **A node with a gap somewhere inside answers as it did.** -/
theorem Spaced.exists_alike {g : Gap} {p : Nat} {t t' : Tree} (h : Spaced g p t t') :
    ∃ kind ts us, t = node kind ts ∧ t' = node kind us ∧ Alike kind ts us := by
  induction h with
  | here kind before after widens inside =>
    obtain ⟨hold, hnew⟩ := widens.isSolid_eq_false
    exact ⟨kind, _, _, rfl, rfl, (alike_skip hold inside).trans (alike_skip hnew inside).symm⟩
  | part kind before after _ _ ih =>
    obtain ⟨kind', ts, us, rfl, rfl, halike⟩ := ih
    exact ⟨kind, _, _, rfl, rfl, (partsAlike_replace halike before after).alike kind⟩

end Tree

end Untranslated.Script
