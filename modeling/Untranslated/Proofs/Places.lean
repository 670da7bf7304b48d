import Mathlib.Data.List.Nodup
import Untranslated.Script.Tree

/-!
# Places in a tree

A part of a script is told apart by the way that leads to it: the nodes around it, innermost
first, and which of their parts was taken. The way also says where the part begins.

* `Tree.Place`: a part of a tree, the way to it and its offset.
* `Tree.Place.exists_leaves`, `Tree.Place.exists_text`: the leaves of a part stand among those of
  the tree, and its text in the text of the tree at its offset.
* `Tree.spots`: all parts of a tree in a list; `mem_spots` and `nodup_spots` say that each is in
  it, and once.
-/

namespace Untranslated.Script

open Text (bytes)

/-- A step from a node to one of its parts. -/
structure Step where
  kind : NodeKind
  before : List Tree
  part : Tree
  after : List Tree

/-- All parts of the node a step leads away from. -/
def Step.parts (step : Step) : List Tree :=
  step.before ++ step.part :: step.after

namespace Tree

/-- The tree `t` has the part `u` at the offset `lo`; the steps to it come innermost first. -/
inductive Place (t : Tree) : List Step → Nat → Tree → Prop
  | root : Place t [] 0 t
  | part {way : List Step} {lo : Nat} (step : Step) :
      Place t way lo (node step.kind step.parts) →
      Place t (step :: way) (lo + sizeAll step.before) step.part

theorem sizeAll_append (ts us : List Tree) : sizeAll (ts ++ us) = sizeAll ts + sizeAll us := by
  rw [sizeAll_eq, sizeAll_eq, sizeAll_eq, textAll_append, Text.bytes_append]

/-- The first of the parts from somewhere on, as a part of its node. -/
theorem Place.head {t u : Tree} {way : List Step} {lo : Nat} {kind : NodeKind}
    {before after : List Tree} (h : Place t way lo (node kind (before ++ u :: after))) :
    Place t (⟨kind, before, u, after⟩ :: way) (lo + sizeAll before) u :=
  .part ⟨kind, before, u, after⟩ h

/-- The leaves of a part stand among those of the tree, behind as many bytes as its offset says. -/
theorem Place.exists_leaves {t u : Tree} {way : List Step} {lo : Nat} (h : Place t way lo u) :
    ∃ a b, t.leaves = a ++ u.leaves ++ b ∧ bytes (a.flatMap (·.2)) = lo := by
  induction h with
  | root => exact ⟨[], [], by simp, rfl⟩
  | part step _ ih =>
    obtain ⟨a, b, hleaves, hlo⟩ := ih
    rw [leaves_node, Step.parts, leavesAll_append, leavesAll_cons] at hleaves
    refine ⟨a ++ leavesAll step.before, leavesAll step.after ++ b, ?_, ?_⟩
    · rw [hleaves]
      simp only [List.append_assoc]
    · rw [List.flatMap_append, Text.bytes_append, hlo, sizeAll_eq, textAll]

/-- **The text of a part stands in the text of the tree at its offset.** -/
theorem Place.exists_text {t u : Tree} {way : List Step} {lo : Nat} (h : Place t way lo u) :
    ∃ a b, t.text = a ++ u.text ++ b ∧ bytes a = lo := by
  obtain ⟨a, b, hleaves, hlo⟩ := h.exists_leaves
  exact ⟨a.flatMap (·.2), b.flatMap (·.2), by simp [text, hleaves], hlo⟩

end Tree

/-! ### All parts -/

/-- A part of a tree, with the way to it and its offset. -/
structure Spot where
  way : List Step
  lo : Nat
  tree : Tree

namespace Tree

mutual

/-- All parts of the part at the end of a way. -/
def spotsFrom (way : List Step) (lo : Nat) : Tree → List Spot
  | leaf kind text => [⟨way, lo, leaf kind text⟩]
  | node kind parts => ⟨way, lo, node kind parts⟩ :: spotsAll way lo kind [] parts

/-- All parts of the parts of a node from some part on. -/
def spotsAll (way : List Step) (lo : Nat) (kind : NodeKind) (before : List Tree) :
    List Tree → List Spot
  | [] => []
  | t :: ts =>
    spotsFrom (⟨kind, before, t, ts⟩ :: way) (lo + sizeAll before) t ++
      spotsAll way lo kind (before ++ [t]) ts

end

/-- All parts of a tree. -/
def spots (t : Tree) : List Spot :=
  spotsFrom [] 0 t

theorem self_mem_spotsFrom (way : List Step) (lo : Nat) (t : Tree) :
    ⟨way, lo, t⟩ ∈ spotsFrom way lo t := by
  cases t <;> simp [spotsFrom]

mutual

/-- What is listed is a part. -/
theorem place_of_mem_spotsFrom {root : Tree} : ∀ (t : Tree) {way : List Step} {lo : Nat},
    root.Place way lo t → ∀ x ∈ spotsFrom way lo t, root.Place x.way x.lo x.tree
  | leaf kind text, way, lo, h => by
    intro x hx
    obtain rfl := List.mem_singleton.1 hx
    exact h
  | node kind parts, way, lo, h => by
    intro x hx
    rcases List.mem_cons.1 hx with rfl | hx
    · exact h
    · exact place_of_mem_spotsAll parts [] h x hx

theorem place_of_mem_spotsAll {root : Tree} : ∀ (after before : List Tree) {kind : NodeKind}
    {way : List Step} {lo : Nat}, root.Place way lo (node kind (before ++ after)) →
      ∀ x ∈ spotsAll way lo kind before after, root.Place x.way x.lo x.tree
  | [], _, _, _, _, _ => fun x hx => absurd hx List.not_mem_nil
  | t :: ts, before, kind, way, lo, h => by
    intro x hx
    rcases List.mem_append.1 hx with hx | hx
    · exact place_of_mem_spotsFrom t h.head x hx
    · exact place_of_mem_spotsAll ts (before ++ [t]) (by simpa using h) x hx

end

theorem spotsFrom_subset_all (way : List Step) (lo : Nat) (kind : NodeKind)
    (before between : List Tree) (t : Tree) (after : List Tree) :
    spotsFrom (⟨kind, before ++ between, t, after⟩ :: way) (lo + sizeAll (before ++ between)) t ⊆
      spotsAll way lo kind before (between ++ t :: after) := by
  induction between generalizing before with
  | nil =>
    rw [List.append_nil, List.nil_append, spotsAll]
    exact List.subset_append_left _ _
  | cons u between ih =>
    have h := ih (before ++ [u])
    rw [List.append_assoc, List.singleton_append] at h
    rw [List.cons_append, spotsAll]
    exact fun x hx => List.mem_append_right _ (h hx)

/-- All parts of a part are listed. -/
theorem Place.spotsFrom_subset {root t : Tree} {way : List Step} {lo : Nat}
    (h : root.Place way lo t) : spotsFrom way lo t ⊆ root.spots := by
  induction h with
  | root => exact fun x hx => hx
  | @part way lo step _ ih =>
    intro x hx
    apply ih
    rw [spotsFrom]
    exact List.mem_cons_of_mem _
      (spotsFrom_subset_all way lo step.kind [] step.before step.part step.after hx)

/-- **Every part of a tree is listed, and nothing else.** -/
theorem mem_spots {t : Tree} {x : Spot} : x ∈ t.spots ↔ t.Place x.way x.lo x.tree :=
  ⟨place_of_mem_spotsFrom t .root x, fun h => h.spotsFrom_subset (self_mem_spotsFrom _ _ _)⟩

mutual

/-- The way to a part of a part goes on from the way to that part. -/
theorem suffix_of_mem_spotsFrom : ∀ (t : Tree) {way : List Step} {lo : Nat},
    ∀ x ∈ spotsFrom way lo t, way <:+ x.way
  | leaf kind text, way, lo => by
    intro x hx
    obtain rfl := List.mem_singleton.1 hx
    exact List.suffix_refl way
  | node kind parts, way, lo => by
    intro x hx
    rcases List.mem_cons.1 hx with rfl | hx
    · exact List.suffix_refl way
    · obtain ⟨step, -, -, h⟩ := suffix_of_mem_spotsAll parts x hx
      exact (List.suffix_cons step way).trans h

theorem suffix_of_mem_spotsAll : ∀ (after : List Tree) {before : List Tree} {kind : NodeKind}
    {way : List Step} {lo : Nat}, ∀ x ∈ spotsAll way lo kind before after,
      ∃ step : Step, step.kind = kind ∧ before.length ≤ step.before.length ∧ step :: way <:+ x.way
  | [], _, _, _, _ => fun x hx => absurd hx List.not_mem_nil
  | t :: ts, before, kind, way, lo => by
    intro x hx
    rcases List.mem_append.1 hx with hx | hx
    · exact ⟨_, rfl, Nat.le_refl _, suffix_of_mem_spotsFrom t x hx⟩
    · obtain ⟨step, hkind, hlength, h⟩ := suffix_of_mem_spotsAll ts x hx
      rw [List.length_append] at hlength
      exact ⟨step, hkind, by omega, h⟩

end

mutual

theorem nodup_spotsFrom : ∀ (t : Tree) (way : List Step) (lo : Nat), (spotsFrom way lo t).Nodup
  | leaf kind text, way, lo => List.nodup_singleton _
  | node kind parts, way, lo => by
    rw [spotsFrom, List.nodup_cons]
    refine ⟨fun hmem => ?_, nodup_spotsAll parts way lo kind []⟩
    obtain ⟨step, -, -, h⟩ := suffix_of_mem_spotsAll parts _ hmem
    have hlength := h.length_le
    simp only [List.length_cons] at hlength
    omega

theorem nodup_spotsAll : ∀ (after : List Tree) (way : List Step) (lo : Nat) (kind : NodeKind)
    (before : List Tree), (spotsAll way lo kind before after).Nodup
  | [], _, _, _, _ => List.nodup_nil
  | t :: ts, way, lo, kind, before => by
    rw [spotsAll, List.nodup_append]
    refine ⟨nodup_spotsFrom t _ _, nodup_spotsAll ts way lo kind _, ?_⟩
    rintro x hx _ hx' rfl
    -- The two steps away from the node would be the same one, yet one comes after the other.
    have h := suffix_of_mem_spotsFrom t x hx
    obtain ⟨step, -, hbefore, h'⟩ := suffix_of_mem_spotsAll ts x hx'
    have heq := (List.suffix_of_suffix_length_le h h' (by simp)).eq_of_length (by simp)
    obtain rfl := (List.cons.inj heq).1
    simp only [List.length_append, List.length_singleton] at hbefore
    omega

end

/-- **No part of a tree is listed twice.** -/
theorem nodup_spots (t : Tree) : t.spots.Nodup :=
  nodup_spotsFrom t [] 0

end Tree

end Untranslated.Script
