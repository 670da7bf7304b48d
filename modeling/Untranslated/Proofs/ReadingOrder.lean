import Mathlib.Data.List.Perm.Basic
import Untranslated.Extraction
import Untranslated.Proofs.Places

/-!
# The order of reading

A tree is read from its root on, and the parts of a node turn by turn, those with one turn in the
order of the text. The ways to two parts separate at some node if neither part is in the other, and
the parts are read in the order in which that node has them read.

* `Tree.occurrencesAll_cons`: the literals of the parts with a turn come in the order of the text.
* `Tree.readOrder`: all parts of a tree in the order of reading; `readOrder_perm` says that they are
  its parts.
* `Spot.ReadBefore`: a part is read before another, told from the ways to them.
* `pairwise_readOrder`: the list is in this order.
-/

namespace Untranslated.Script

/-- What is done in one turn is done once. -/
theorem Turn.flatMap_all {α : Type} (turn : Turn) (l : List α) :
    (Turn.all.flatMap fun other => if turn = other then l else []) = l := by
  cases turn <;> simp [Turn.all]

namespace Tree

/-! ### What is read of a node -/

section Unfold

variable (o : Options) (s : Scope) (tag : Option String) (lo : Nat)

/-- A template that counts is one literal. -/
theorem occurrences_of_origin? {origin : Origin} (h : s.origin? o tag = some origin)
    (parts : List Tree) : occurrences o s tag lo (node .template parts) =
      [⟨lo, lo + sizeAll parts, .template, origin, some (pieces parts)⟩] := by
  rw [occurrences]
  exact h

/-- Any other node has the literals of its parts, turn by turn. -/
theorem occurrences_of_parts {kind : NodeKind} (parts : List Tree)
    (h : kind = .template → s.origin? o tag = none) :
    occurrences o s tag lo (node kind parts) = Turn.all.flatMap fun turn =>
      occurrencesAll o (partScope s kind parts) (tagOf kind parts) turn lo parts := by
  rw [occurrences]
  intro origin hkind horigin
  rw [h hkind] at horigin
  cases horigin

/-- What is read of one part. -/
def occurrencesOf (scope : Tree → Option Scope) (t : Tree) : List Occurrence :=
  (scope t).elim [] fun s => occurrences o s tag lo t

theorem occurrencesAll_cons (scope : Tree → Option Scope) (turn : Turn) (t : Tree)
    (ts : List Tree) : occurrencesAll o scope tag turn lo (t :: ts) =
      (if t.turn = turn then occurrencesOf o tag lo scope t else []) ++
        occurrencesAll o scope tag turn (lo + t.size) ts := by
  rw [occurrencesAll]
  unfold occurrencesOf
  cases scope t <;> split <;> rfl

end Unfold

/-! ### Parts in the order of reading -/

mutual

/-- All parts of the part at the end of a way in the order of reading. -/
def readFrom (way : List Step) (lo : Nat) : Tree → List Spot
  | leaf kind text => [⟨way, lo, leaf kind text⟩]
  | node kind parts => ⟨way, lo, node kind parts⟩ ::
      Turn.all.flatMap fun turn => readAll turn way lo kind [] parts

/-- All parts of the parts of a node that have a turn, from some part on. -/
def readAll (turn : Turn) (way : List Step) (lo : Nat) (kind : NodeKind) (before : List Tree) :
    List Tree → List Spot
  | [] => []
  | t :: ts =>
    (if t.turn = turn then readFrom (⟨kind, before, t, ts⟩ :: way) (lo + sizeAll before) t
      else []) ++ readAll turn way lo kind (before ++ [t]) ts

end

/-- All parts of a tree in the order of reading. -/
def readOrder (t : Tree) : List Spot :=
  readFrom [] 0 t

/-! ### All parts are read -/

mutual

theorem readFrom_perm : ∀ (t : Tree) (way : List Step) (lo : Nat),
    (readFrom way lo t).Perm (spotsFrom way lo t)
  | leaf _ _, _, _ => .refl _
  | node kind parts, way, lo => (readAll_perm parts way lo kind []).cons _

/-- Each part of a node has its turn. -/
theorem readAll_perm : ∀ (after : List Tree) (way : List Step) (lo : Nat) (kind : NodeKind)
    (before : List Tree),
    (Turn.all.flatMap fun turn => readAll turn way lo kind before after).Perm
      (spotsAll way lo kind before after)
  | [], _, _, _, _ => .refl _
  | t :: ts, way, lo, kind, before => by
    have hhere := readFrom_perm t (⟨kind, before, t, ts⟩ :: way) (lo + sizeAll before)
    have hrest := readAll_perm ts way lo kind (before ++ [t])
    simp only [readAll, spotsAll]
    refine (List.flatMap_append_perm Turn.all _ _).symm.trans ?_
    rw [Turn.flatMap_all]
    exact hhere.append hrest

end

/-- **Every part of a tree is read once.** -/
theorem readOrder_perm (t : Tree) : t.readOrder.Perm t.spots :=
  readFrom_perm t [] 0

theorem suffix_of_mem_readFrom {t : Tree} {way : List Step} {lo : Nat} {x : Spot}
    (h : x ∈ readFrom way lo t) : way <:+ x.way :=
  suffix_of_mem_spotsFrom t x ((readFrom_perm t way lo).mem_iff.1 h)

/-- What is read of the parts of a node is on a way through one of them. -/
theorem exists_step_of_mem_readAll {turn : Turn} {way : List Step} {lo : Nat} {kind : NodeKind}
    {after : List Tree} : ∀ {before : List Tree}, ∀ x ∈ readAll turn way lo kind before after,
      ∃ step : Step, step.kind = kind ∧ step.parts = before ++ after ∧ step.part.turn = turn ∧
        before.length ≤ step.before.length ∧ step :: way <:+ x.way := by
  induction after with
  | nil => exact fun x hx => absurd hx List.not_mem_nil
  | cons t ts ih =>
    intro before x hx
    rw [readAll] at hx
    rcases List.mem_append.1 hx with hx | hx
    · split_ifs at hx with hturn
      · exact ⟨_, rfl, rfl, hturn, Nat.le_refl _, suffix_of_mem_readFrom hx⟩
      · exact absurd hx List.not_mem_nil
    · obtain ⟨step, hkind, hparts, hturn, hlength, hsuffix⟩ := ih x hx
      rw [List.length_append] at hlength
      exact ⟨step, hkind, by rw [hparts, List.append_assoc, List.singleton_append], hturn, by omega,
        hsuffix⟩

end Tree

/-! ### Before and after -/

/-- The first part is read before the second: the ways to them part at a node, and there the first
way takes a part with an earlier turn, or one with the same turn that stands before. -/
def Spot.ReadBefore (x x' : Spot) : Prop :=
  ∃ (way : List Step) (step step' : Step), step :: way <:+ x.way ∧ step' :: way <:+ x'.way ∧
    step.kind = step'.kind ∧ step.parts = step'.parts ∧
    (step.part.turn < step'.part.turn ∨
      step.part.turn = step'.part.turn ∧ step.before.length < step'.before.length)

namespace Tree

/-- The first part is read before the second: it holds it, or their ways part. -/
def ReadsOn (x x' : Spot) : Prop :=
  x.way <:+ x'.way ∨ x.ReadBefore x'

mutual

theorem pairwise_readFrom : ∀ (t : Tree) (way : List Step) (lo : Nat),
    (readFrom way lo t).Pairwise ReadsOn
  | leaf _ _, _, _ => List.pairwise_singleton _ _
  | node kind parts, way, lo => by
    rw [readFrom, List.pairwise_cons]
    constructor
    · intro x hx
      have hmem : x ∈ readFrom way lo (node kind parts) := by
        rw [readFrom]
        exact List.mem_cons_of_mem _ hx
      exact .inl (suffix_of_mem_readFrom hmem)
    · refine List.pairwise_flatMap.2 ⟨fun turn _ => pairwise_readAll parts turn way lo kind [],
        Turn.pairwise_all.imp fun {turn turn'} hlt x hx x' hx' => ?_⟩
      obtain ⟨step, hkind, hparts, hturn, -, hsuffix⟩ := exists_step_of_mem_readAll x hx
      obtain ⟨step', hkind', hparts', hturn', -, hsuffix'⟩ := exists_step_of_mem_readAll x' hx'
      exact .inr ⟨way, step, step', hsuffix, hsuffix', hkind.trans hkind'.symm,
        hparts.trans hparts'.symm, .inl (by rwa [hturn, hturn'])⟩

theorem pairwise_readAll : ∀ (after : List Tree) (turn : Turn) (way : List Step) (lo : Nat)
    (kind : NodeKind) (before : List Tree),
    (readAll turn way lo kind before after).Pairwise ReadsOn
  | [], _, _, _, _, _ => List.Pairwise.nil
  | t :: ts, turn, way, lo, kind, before => by
    have hrest := pairwise_readAll ts turn way lo kind (before ++ [t])
    rw [readAll]
    split_ifs with hturn
    · refine List.pairwise_append.2 ⟨pairwise_readFrom t _ _, hrest, fun x hx x' hx' => ?_⟩
      obtain ⟨step', hkind, hparts, hturn', hlength, hsuffix⟩ := exists_step_of_mem_readAll x' hx'
      rw [List.length_append, List.length_singleton] at hlength
      refine .inr ⟨way, ⟨kind, before, t, ts⟩, step', suffix_of_mem_readFrom hx, hsuffix,
        hkind.symm, ?_, .inr ⟨hturn.trans hturn'.symm, hlength⟩⟩
      rw [hparts, List.append_assoc, List.singleton_append]
      rfl
    · exact hrest

end

/-- **The parts come in the order of reading.** -/
theorem pairwise_readOrder (t : Tree) : t.readOrder.Pairwise ReadsOn :=
  pairwise_readFrom t [] 0

end Tree

end Untranslated.Script
