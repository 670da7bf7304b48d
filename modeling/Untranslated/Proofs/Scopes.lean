import Untranslated.Extraction
import Untranslated.Proofs.Places

/-!
# What a literal belongs to

Reading a tree from its root on, the owner of what is read and the callee around it are replaced,
kept and put back at each node. Here both are read off the way to a part alone, from the inside:
the owner is what the nearest piece of markup gives (`ownerOf`), the callee that of the nearest
call whose arguments hold the part, in that piece and in the same braces (`calleeOf`). Both ways
of telling agree at each step (`partScope_step`).

* `scopeOf`: the scope at the end of a way.
* `Reports`: a literal in a scope counts; `isSome_origin?`: it is one with an origin.
* `Reached`: the end of a way is looked into.
-/

namespace Untranslated

namespace Script

open Untranslated.Script.Tree (node leaf partScope)

/-! ### The way from the inside -/

/-- What a step into a piece of markup makes the owner: the children of an element or a fragment
and the value of an attribute are owners, the rest of an opening tag is code. -/
def Step.boundary? (step : Step) : Option Owner :=
  match step.kind, step.part with
  | .element, node .opening _ => some .code
  | .element, node .children _ => some .children
  | .fragment, node .children _ => some .children
  | .attribute, _ => some (.attributeValue (Tree.attributeSpelling step.parts))
  | _, _ => none

/-- The callee of the call whose arguments the step leads to, if it leads to arguments. -/
def Step.callee? (step : Step) : Option (Option String) :=
  match step.part with
  | node .arguments _ => Tree.callee? step.kind step.parts
  | _ => none

/-- The step leads to what is never looked into: text given up, the children of an element that
holds no text for a user, a closing tag, the name of an attribute, the types a call is given. -/
def Step.isUnread (step : Step) : Bool :=
  match step.kind, step.part with
  | .discarded, _ => true
  | .element, node .opening _ => false
  | .element, node .children _ => Tree.isRaw step.parts
  | .element, _ => true
  | .fragment, node .children _ => false
  | .fragment, _ => true
  | .attribute, node .attributeName _ => true
  | kind, node .typeArguments _ => (Tree.callee? kind step.parts).isSome
  | _, _ => false

/-- The owner at the end of a way: that of the nearest piece of markup, code where there is none. -/
def ownerOf (way : List Step) : Owner :=
  (way.findSome? Step.boundary?).getD .code

/-- The step stays in the same piece of markup and in the same braces. -/
def Step.staysInside (step : Step) : Bool :=
  step.boundary?.isNone && step.kind != .container

/-- The callee at the end of a way: that of the nearest call whose arguments are on the way, if it
stands in the same piece of markup and in the same braces. -/
def calleeOf (way : List Step) : Option String :=
  ((way.takeWhile Step.staysInside).findSome? Step.callee?).join

/-- The scope at the end of a way. -/
def scopeOf (way : List Step) : Scope :=
  ⟨ownerOf way, calleeOf way⟩

section Step

variable {step : Step} (way : List Step)

/-- A step into a piece of markup leaves all calls behind. -/
theorem scopeOf_of_boundary {owner : Owner} (h : step.boundary? = some owner) :
    scopeOf (step :: way) = ⟨owner, none⟩ := by
  unfold scopeOf ownerOf calleeOf
  rw [List.findSome?_cons, h, List.takeWhile_cons_of_neg (by simp [Step.staysInside, h])]
  rfl

/-- A step into braces keeps the owner and leaves all calls behind. -/
theorem scopeOf_of_container (h : step.boundary? = none) (hkind : step.kind = .container) :
    scopeOf (step :: way) = ⟨ownerOf way, none⟩ := by
  unfold scopeOf ownerOf calleeOf
  rw [List.findSome?_cons, h, List.takeWhile_cons_of_neg (by simp [Step.staysInside, hkind])]
  rfl

/-- A step to arguments keeps the owner. -/
theorem scopeOf_of_callee {callee : Option String} (h : step.boundary? = none)
    (hkind : step.kind ≠ .container) (hcallee : step.callee? = some callee) :
    scopeOf (step :: way) = ⟨ownerOf way, callee⟩ := by
  unfold scopeOf ownerOf calleeOf
  rw [List.findSome?_cons, h, List.takeWhile_cons_of_pos (by simp [Step.staysInside, h, hkind]),
    List.findSome?_cons, hcallee]
  rfl

/-- Any other step changes nothing. -/
theorem scopeOf_of_none (h : step.boundary? = none) (hkind : step.kind ≠ .container)
    (hcallee : step.callee? = none) : scopeOf (step :: way) = scopeOf way := by
  unfold scopeOf ownerOf calleeOf
  rw [List.findSome?_cons, h, List.takeWhile_cons_of_pos (by simp [Step.staysInside, h, hkind]),
    List.findSome?_cons, hcallee]

/-- The step leads away from a node that is more than its parts in a row. -/
def Step.isSpecial (step : Step) : Prop :=
  step.kind = .discarded ∨ step.kind = .element ∨ step.kind = .fragment ∨
    step.kind = .container ∨ step.kind = .attribute

/-- Outside of markup only calls tell their parts apart. -/
theorem partScope_of_not_isSpecial (h : ¬step.isSpecial) :
    partScope (scopeOf way) step.kind step.parts step.part =
      if step.isUnread then none else some (scopeOf (step :: way)) := by
  simp only [Step.isSpecial, not_or] at h
  obtain ⟨hdiscarded, helement, hfragment, hcontainer, hattribute⟩ := h
  have hboundary : step.boundary? = none := by
    unfold Step.boundary?
    split <;> first | rfl | contradiction
  unfold partScope
  split
  iterate 5 contradiction
  split
  case h_1 callee args hcallee hpart =>
    have hunread : step.isUnread = false := by
      unfold Step.isUnread
      split <;> simp_all
    have hstep : step.callee? = some callee := by simp only [Step.callee?, hpart, hcallee]
    rw [hunread, scopeOf_of_callee way hboundary hcontainer hstep]
    rfl
  case h_2 callee args hcallee hpart =>
    have hunread : step.isUnread = true := by
      unfold Step.isUnread
      split <;> simp_all
    rw [hunread]
    rfl
  case h_3 hnoArguments hnoTypes =>
    have hunread : step.isUnread = false := by
      unfold Step.isUnread
      split <;> simp_all [Option.eq_none_iff_forall_ne_some]
    have hstep : step.callee? = none := by
      unfold Step.callee?
      split
      case h_1 args hpart =>
        rw [Option.eq_none_iff_forall_ne_some]
        exact fun callee hcallee => hnoArguments callee args hcallee hpart
      case h_2 => rfl
    rw [hunread, scopeOf_of_none way hboundary hcontainer hstep]
    rfl

/-- An element has an opening tag and children; the rest is not looked into. -/
theorem partScope_element (h : step.kind = .element) :
    partScope (scopeOf way) step.kind step.parts step.part =
      if step.isUnread then none else some (scopeOf (step :: way)) := by
  unfold partScope
  rw [h]
  dsimp only
  split
  case h_1 parts hpart =>
    have hunread : step.isUnread = false := by simp only [Step.isUnread, h, hpart]
    have hboundary : step.boundary? = some .code := by simp only [Step.boundary?, h, hpart]
    rw [hunread, scopeOf_of_boundary way hboundary]
    rfl
  case h_2 parts hpart =>
    have hunread : step.isUnread = Tree.isRaw step.parts := by
      simp only [Step.isUnread, h, hpart]
    have hboundary : step.boundary? = some .children := by simp only [Step.boundary?, h, hpart]
    rw [hunread, scopeOf_of_boundary way hboundary]
  case h_3 hopening hchildren =>
    have hunread : step.isUnread = true := by
      unfold Step.isUnread
      split <;> simp_all
    rw [hunread]
    rfl

/-- A fragment has children; its tags are not looked into. -/
theorem partScope_fragment (h : step.kind = .fragment) :
    partScope (scopeOf way) step.kind step.parts step.part =
      if step.isUnread then none else some (scopeOf (step :: way)) := by
  unfold partScope
  rw [h]
  dsimp only
  split
  case h_1 parts hpart =>
    have hunread : step.isUnread = false := by simp only [Step.isUnread, h, hpart]
    have hboundary : step.boundary? = some .children := by simp only [Step.boundary?, h, hpart]
    rw [hunread, scopeOf_of_boundary way hboundary]
    rfl
  case h_2 hchildren =>
    have hunread : step.isUnread = true := by
      unfold Step.isUnread
      split <;> simp_all
    rw [hunread]
    rfl

/-- An attribute has a value; its name is not looked into. -/
theorem partScope_attribute (h : step.kind = .attribute) :
    partScope (scopeOf way) step.kind step.parts step.part =
      if step.isUnread then none else some (scopeOf (step :: way)) := by
  have hboundary : step.boundary? = some (.attributeValue (Tree.attributeSpelling step.parts)) := by
    simp only [Step.boundary?, h]
  unfold partScope
  rw [h]
  dsimp only
  split
  case h_1 parts hpart =>
    have hunread : step.isUnread = true := by simp only [Step.isUnread, h, hpart]
    rw [hunread]
    rfl
  case h_2 hname =>
    have hunread : step.isUnread = false := by
      unfold Step.isUnread
      split <;> simp_all [Tree.callee?]
    rw [hunread, scopeOf_of_boundary way hboundary]
    rfl

/-- **The scope handed to a part is that of the way to it.** -/
theorem partScope_step (step : Step) :
    partScope (scopeOf way) step.kind step.parts step.part =
      if step.isUnread then none else some (scopeOf (step :: way)) := by
  by_cases hspecial : step.isSpecial
  · rcases hspecial with h | h | h | h | h
    · have hunread : step.isUnread = true := by simp only [Step.isUnread, h]
      rw [h, hunread]
      rfl
    · exact partScope_element way h
    · exact partScope_fragment way h
    · have hunread : step.isUnread = false := by
        unfold Step.isUnread
        split <;> simp_all [Tree.callee?]
      have hboundary : step.boundary? = none := by simp only [Step.boundary?, h]
      rw [hunread, scopeOf_of_container way hboundary h, h]
      rfl
    · exact partScope_attribute way h
  · exact partScope_of_not_isSpecial way hspecial

end Step

/-- The tag of a template at the end of a way, if it has one. -/
def tagAt : List Step → Option String
  | [] => none
  | step :: _ => Tree.tagOf step.kind step.parts

/-! ### Literals that count -/

/-- A literal in a scope counts: it is an argument of a call to look at, belongs to children, or
to the value of an attribute to look at. -/
def Reports (o : Options) (s : Scope) : Prop :=
  (∃ name, s.callee = some name ∧ o.isCheckedCall name = true) ∨ s.owner = .children ∨
    ∃ name, s.owner = .attributeValue name ∧ o.isCheckedAttribute name = true

/-- A literal that counts has an origin, and no other has. -/
theorem isSome_origin? {o : Options} {s : Scope} {tag : Option String} :
    (s.origin? o tag).isSome = true ↔ Reports o s := by
  obtain ⟨owner, callee⟩ := s
  unfold Scope.origin? Reports
  have hcall : callee.any o.isCheckedCall = true ↔
      ∃ name, callee = some name ∧ o.isCheckedCall name = true := by
    cases callee <;> simp
  by_cases h : callee.any o.isCheckedCall = true
  · simp only [h, if_true, Option.isSome_some, true_iff]
    exact .inl (hcall.1 h)
  · rw [if_neg h, ← hcall]
    cases owner with
    | code => simp [h]
    | children => simp
    | attributeValue name =>
      by_cases hname : o.isCheckedAttribute name = true <;> simp [h, hname]

/-- The end of a way is looked into: no step leads to what is not, and no template on the way
counts, since one that counts is one literal with all it holds. -/
def Reached (o : Options) (way : List Step) : Prop :=
  ∀ step around, step :: around <:+ way →
    step.isUnread = false ∧ ¬(step.kind = .template ∧ Reports o (scopeOf around))

section Reached

variable {o : Options} {way way' : List Step} {step : Step}

theorem reached_nil : Reached o [] := by
  intro step around h
  have hlength := h.length_le
  simp at hlength

theorem Reached.of_suffix (h : Reached o way') (hsuffix : way <:+ way') : Reached o way :=
  fun step around hstep => h step around (hstep.trans hsuffix)

theorem reached_cons : Reached o (step :: way) ↔
    step.isUnread = false ∧ ¬(step.kind = .template ∧ Reports o (scopeOf way)) ∧ Reached o way := by
  constructor
  · intro h
    obtain ⟨hread, htemplate⟩ := h step way (List.suffix_refl _)
    exact ⟨hread, htemplate, h.of_suffix (List.suffix_cons step way)⟩
  · rintro ⟨hread, htemplate, h⟩ step' around hsuffix
    rcases List.suffix_cons_iff.1 hsuffix with heq | hsuffix
    · obtain ⟨rfl, rfl⟩ := List.cons.inj heq
      exact ⟨hread, htemplate⟩
    · exact h step' around hsuffix

end Reached

end Script

end Untranslated
