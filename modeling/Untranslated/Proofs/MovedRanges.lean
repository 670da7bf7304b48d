import Untranslated.Proofs.ReadingOrder
import Untranslated.Proofs.SpacedTrees
import Untranslated.Proofs.StrippedLines

/-!
# Ranges around a gap

When a gap is put into a script, what ends before it stays where it is, what begins behind it
moves by its length, and what has it inside grows by its length (`Moved`). This is so for the
statements that bring in modules, for the comments, where the gap may be one more, and for the
literals of a tree with a gap.

* `Tree.Spaced.moduleStatements`, `Tree.Spaced.commentRegions`: what is erased.
* `Tree.cutOut_of_mem_occurrences`: literals are cut out of the text of a tree.
* `Tree.Spaced.occurrences`: what is extracted.
-/

namespace Untranslated

namespace Script

open Text (Region Erasure bytes)

/-- What becomes of the range from `lo` to `hi` when `n` bytes are put in at the offset `p`. -/
inductive Moved (p n lo hi : Nat) : Nat → Nat → Prop
  | ahead (h : hi ≤ p) : Moved p n lo hi lo hi
  | around (hlo : lo < p) (hhi : p < hi) : Moved p n lo hi lo (hi + n)
  | behind (h : p ≤ lo) : Moved p n lo hi (lo + n) (hi + n)

/-! ### Sizes -/

theorem Gap.Widens.sizeAll_eq {g : Gap} {lead : List Char} {old new : List Tree}
    (h : g.Widens lead old new) :
    Tree.sizeAll new = Tree.sizeAll old + bytes g.text ∧ bytes lead ≤ Tree.sizeAll old := by
  cases h <;> simp [Tree.sizeAll, Tree.size] <;> omega

namespace Tree

theorem Spaced.size_eq {g : Gap} {p : Nat} {t t' : Tree} (h : Spaced g p t t') :
    t'.size = t.size + bytes g.text := by
  induction h with
  | here kind before after widens _ =>
    have hsize := widens.sizeAll_eq.1
    simp only [size, sizeAll_append]
    omega
  | part kind before after _ _ ih =>
    simp only [size, sizeAll_append, sizeAll]
    omega

/-- A node that is no group has the gap strictly inside. -/
theorem Spaced.inside {g : Gap} {p : Nat} {kind : NodeKind} {parts : List Tree} {t' : Tree}
    (h : Spaced g p (node kind parts) t') (hkind : kind ≠ .group) :
    0 < p ∧ p < (node kind parts).size := by
  cases h with
  | here _ before after widens inside =>
    obtain ⟨hbefore, hafter⟩ := inside.resolve_left hkind
    have hlead := widens.sizeAll_eq.2
    simp only [size, sizeAll_append]
    omega
  | part _ before after _ inside => exact inside.resolve_left hkind

/-- The gap is not past the end. -/
theorem Spaced.le_size {g : Gap} {p : Nat} {t t' : Tree} (h : Spaced g p t t') : p ≤ t.size := by
  induction h with
  | here kind before after widens _ =>
    have hlead := widens.sizeAll_eq.2
    simp only [size, sizeAll_append]
    omega
  | part kind before after _ _ ih =>
    simp only [size, sizeAll_append, sizeAll]
    omega

/-! ### Statements that bring in modules -/

theorem moduleStatementsAll_append (lo : Nat) (ts us : List Tree) :
    moduleStatementsAll lo (ts ++ us) =
      moduleStatementsAll lo ts ++ moduleStatementsAll (lo + sizeAll ts) us := by
  induction ts generalizing lo with
  | nil => rfl
  | cons t ts ih =>
    rw [List.cons_append, moduleStatementsAll, moduleStatementsAll, ih, sizeAll, List.append_assoc,
      Nat.add_assoc]

mutual

theorem moduleStatements_add (lo n : Nat) : ∀ t : Tree,
    t.moduleStatements (lo + n) = (t.moduleStatements lo).map fun r => (r.1 + n, r.2 + n)
  | leaf _ _ => rfl
  | node kind parts => by
    rw [moduleStatements, moduleStatements, moduleStatementsAll_add lo n parts]
    split
    · simp only [List.map_cons, List.map_nil, Nat.add_right_comm]
    · split <;> rfl

theorem moduleStatementsAll_add (lo n : Nat) : ∀ ts : List Tree,
    moduleStatementsAll (lo + n) ts = (moduleStatementsAll lo ts).map fun r => (r.1 + n, r.2 + n)
  | [] => rfl
  | t :: ts => by
    rw [moduleStatementsAll, moduleStatementsAll, moduleStatements_add lo n t, Nat.add_right_comm,
      moduleStatementsAll_add (lo + t.size) n ts, List.map_append]

end

mutual

/-- The statements of a tree are inside of it. -/
theorem le_of_mem_moduleStatements : ∀ (t : Tree) {lo : Nat},
    ∀ r ∈ t.moduleStatements lo, lo ≤ r.1 ∧ r.2 ≤ lo + t.size
  | leaf _ _, _ => fun r hr => absurd hr List.not_mem_nil
  | node kind parts, lo => by
    intro r hr
    rw [moduleStatements] at hr
    split at hr
    · obtain rfl := List.mem_singleton.1 hr
      exact ⟨Nat.le_refl _, Nat.le_refl _⟩
    · split at hr
      · exact absurd hr List.not_mem_nil
      · exact le_of_mem_moduleStatementsAll parts r hr

theorem le_of_mem_moduleStatementsAll : ∀ (ts : List Tree) {lo : Nat},
    ∀ r ∈ moduleStatementsAll lo ts, lo ≤ r.1 ∧ r.2 ≤ lo + sizeAll ts
  | [], _ => fun r hr => absurd hr List.not_mem_nil
  | t :: ts, lo => by
    intro r hr
    rw [sizeAll]
    rcases List.mem_append.1 hr with hr | hr
    · have hbounds := le_of_mem_moduleStatements t r hr
      omega
    · have hbounds := le_of_mem_moduleStatementsAll ts r hr
      omega

end

theorem moduleStatementsAll_of_not_isSolid {ts : List Tree} (h : ∀ t ∈ ts, t.isSolid = false)
    (lo : Nat) : moduleStatementsAll lo ts = [] := by
  induction ts generalizing lo with
  | nil => rfl
  | cons t ts ih =>
    obtain ⟨ht, hts⟩ := List.forall_mem_cons.1 h
    obtain ⟨kind, text, rfl⟩ := eq_trivia_of_isSolid ht
    rw [moduleStatementsAll, ih hts]
    rfl

end Tree

/-- Ranges that end before the gap stay. -/
theorem forall₂_ahead {p n : Nat} {rs : List (Nat × Nat)} (h : ∀ r ∈ rs, r.2 ≤ p) :
    List.Forall₂ (fun r r' => Moved p n r.1 r.2 r'.1 r'.2) rs rs :=
  List.forall₂_same.2 fun r hr => .ahead (h r hr)

/-- Ranges that begin behind the gap move. -/
theorem forall₂_behind {p n : Nat} {rs : List (Nat × Nat)} (h : ∀ r ∈ rs, p ≤ r.1) :
    List.Forall₂ (fun r r' => Moved p n r.1 r.2 r'.1 r'.2) rs
      (rs.map fun r => (r.1 + n, r.2 + n)) := by
  rw [List.forall₂_map_right_iff, List.forall₂_same]
  exact fun r hr => .behind (h r hr)

namespace Tree

variable {g : Gap} {p : Nat}

theorem Spaced.isModuleStatement_eq {t t' : Tree} (h : Spaced g p t t') :
    t.isModuleStatement = t'.isModuleStatement := by
  obtain ⟨kind, ts, us, rfl, rfl, halike⟩ := h.exists_alike
  exact halike.isModuleStatement

/-- The statements of a node with a gap move if those of its parts do. -/
theorem Spaced.moduleStatements_node {kind : NodeKind} {ts us : List Tree} {lo : Nat}
    (h : Spaced g p (node kind ts) (node kind us))
    (hparts : List.Forall₂ (fun r r' => Moved (lo + p) (bytes g.text) r.1 r.2 r'.1 r'.2)
      (moduleStatementsAll lo ts) (moduleStatementsAll lo us)) :
    List.Forall₂ (fun r r' => Moved (lo + p) (bytes g.text) r.1 r.2 r'.1 r'.2)
      ((node kind ts).moduleStatements lo) ((node kind us).moduleStatements lo) := by
  rw [moduleStatements, moduleStatements, h.isModuleStatement_eq]
  split
  case isTrue hmodule =>
    have hkind : kind ≠ .group := by
      rintro rfl
      cases hmodule
    obtain ⟨hlo, hhi⟩ := h.inside hkind
    rw [h.size_eq, ← Nat.add_assoc]
    exact .cons (.around (by dsimp only; omega) (by dsimp only; omega)) .nil
  case isFalse =>
    split
    · exact .nil
    · exact hparts

/-- The statements of parts move if those of the part with the gap do. -/
theorem forall₂_moduleStatementsAll {lo n : Nat} {before old new after : List Tree}
    (hlo : sizeAll before ≤ p) (hhi : p ≤ sizeAll before + sizeAll old)
    (hsize : sizeAll new = sizeAll old + n)
    (h : List.Forall₂ (fun r r' => Moved (lo + p) n r.1 r.2 r'.1 r'.2)
      (moduleStatementsAll (lo + sizeAll before) old)
      (moduleStatementsAll (lo + sizeAll before) new)) :
    List.Forall₂ (fun r r' => Moved (lo + p) n r.1 r.2 r'.1 r'.2)
      (moduleStatementsAll lo (before ++ (old ++ after)))
      (moduleStatementsAll lo (before ++ (new ++ after))) := by
  have hmoved : lo + sizeAll before + (sizeAll old + n) =
      lo + sizeAll before + sizeAll old + n := by omega
  simp only [moduleStatementsAll_append, hsize]
  rw [hmoved, moduleStatementsAll_add _ n]
  refine List.rel_append (forall₂_ahead fun r hr => ?_)
    (List.rel_append h (forall₂_behind fun r hr => ?_))
  · have hbounds := le_of_mem_moduleStatementsAll before r hr
    omega
  · have hbounds := le_of_mem_moduleStatementsAll after r hr
    omega

/-- **The statements of a tree with a gap are those of the tree, moved.** -/
theorem Spaced.moduleStatements {t t' : Tree} (h : Spaced g p t t') (lo : Nat) :
    List.Forall₂ (fun r r' => Moved (lo + p) (bytes g.text) r.1 r.2 r'.1 r'.2)
      (t.moduleStatements lo) (t'.moduleStatements lo) := by
  induction h generalizing lo with
  | @here lead old new kind before after widens inside =>
    obtain ⟨hold, hnew⟩ := widens.isSolid_eq_false
    obtain ⟨hsize, hlead⟩ := widens.sizeAll_eq
    refine (Spaced.here kind before after widens inside).moduleStatements_node ?_
    refine forall₂_moduleStatementsAll (by omega) (by omega) hsize ?_
    rw [moduleStatementsAll_of_not_isSolid hold, moduleStatementsAll_of_not_isSolid hnew]
    exact .nil
  | @part q t t' kind before after spaced inside ih =>
    refine (Spaced.part kind before after spaced inside).moduleStatements_node ?_
    refine @forall₂_moduleStatementsAll _ lo _ before [t] [t'] after (by omega) ?_ ?_ ?_
    · simpa [sizeAll] using spaced.le_size
    · simpa [sizeAll] using spaced.size_eq
    · rw [← Nat.add_assoc]
      exact List.rel_append (ih _) .nil

/-! ### Comments -/

/-- The leaves of a tree with a gap. -/
theorem Spaced.exists_leaves {t t' : Tree} (h : Spaced g p t t') :
    ∃ before after lead old new, g.Widens lead old new ∧
      t.leaves = before ++ (leavesAll old ++ after) ∧
      t'.leaves = before ++ (leavesAll new ++ after) ∧
      p = bytes (before.flatMap (·.2)) + bytes lead := by
  induction h with
  | @here lead old new kind before after widens _ =>
    refine ⟨leavesAll before, leavesAll after, lead, old, new, widens, ?_, ?_, ?_⟩
    · simp
    · simp
    · rw [sizeAll_eq, textAll]
  | @part q t t' kind before after _ _ ih =>
    obtain ⟨first, last, lead, old, new, widens, ht, ht', rfl⟩ := ih
    refine ⟨leavesAll before ++ first, last ++ leavesAll after, lead, old, new, widens, ?_, ?_, ?_⟩
    · simp [ht]
    · simp [ht']
    · rw [sizeAll_eq, textAll, List.flatMap_append, Text.bytes_append, Nat.add_assoc]

end Tree

theorem commentRegions_append (lo : Nat) (ls ms : List (LeafKind × List Char)) :
    commentRegions lo (ls ++ ms) =
      commentRegions lo ls ++ commentRegions (lo + bytes (ls.flatMap (·.2))) ms := by
  induction ls generalizing lo with
  | nil => rfl
  | cons l ls ih =>
    obtain ⟨kind, text⟩ := l
    rw [List.cons_append, commentRegions_cons, commentRegions_cons, ih, List.flatMap_cons,
      Text.bytes_append, List.append_assoc, Nat.add_assoc]

theorem commentRegions_add (lo n : Nat) (ls : List (LeafKind × List Char)) :
    commentRegions (lo + n) ls =
      (commentRegions lo ls).map fun r => ⟨r.lo + n, r.hi + n, r.erasure⟩ := by
  induction ls generalizing lo with
  | nil => rfl
  | cons l ls ih =>
    obtain ⟨kind, text⟩ := l
    rw [commentRegions_cons, commentRegions_cons, Nat.add_right_comm, ih, List.map_append]
    cases erasure? kind <;> rfl

theorem le_of_mem_commentRegions {lo : Nat} {ls : List (LeafKind × List Char)} {r : Region}
    (h : r ∈ commentRegions lo ls) : lo ≤ r.lo ∧ r.hi ≤ lo + bytes (ls.flatMap (·.2)) := by
  obtain ⟨before, kind, text, after, rfl, hlo, hhi, -⟩ := mem_commentRegions.1 h
  simp only [List.flatMap_append, List.flatMap_cons, Text.bytes_append]
  omega

/-- **Regions with a gap put in**: each is moved, and the gap may be a region of its own. A region
with the gap strictly inside is blanked. -/
inductive RegionsMoved (p n : Nat) : List Region → List Region → Prop
  | nil : RegionsMoved p n [] []
  | cons {r r' : Region} {rs rs' : List Region} (moved : Moved p n r.lo r.hi r'.lo r'.hi)
      (same : r'.erasure = r.erasure) (blank : r.lo < p → p < r.hi → r.erasure = .blank)
      (rest : RegionsMoved p n rs rs') : RegionsMoved p n (r :: rs) (r' :: rs')
  | gap {rs rs' : List Region} (rest : RegionsMoved p n rs rs') :
      RegionsMoved p n rs (⟨p, p + n, .blank⟩ :: rs')

section RegionsMoved

variable {p n : Nat} {rs rs' : List Region}

theorem RegionsMoved.append {qs qs' : List Region} (h : RegionsMoved p n rs rs')
    (h' : RegionsMoved p n qs qs') : RegionsMoved p n (rs ++ qs) (rs' ++ qs') := by
  induction h with
  | nil => exact h'
  | cons moved same blank _ ih => exact .cons moved same blank ih
  | gap _ ih => exact .gap ih

theorem regionsMoved_ahead (h : ∀ r ∈ rs, r.hi ≤ p) : RegionsMoved p n rs rs := by
  induction rs with
  | nil => exact .nil
  | cons r rs ih =>
    obtain ⟨hr, hrs⟩ := List.forall_mem_cons.1 h
    exact .cons (.ahead hr) rfl (fun _ hhi => by omega) (ih hrs)

theorem regionsMoved_behind (h : ∀ r ∈ rs, p ≤ r.lo) :
    RegionsMoved p n rs (rs.map fun r => ⟨r.lo + n, r.hi + n, r.erasure⟩) := by
  induction rs with
  | nil => exact .nil
  | cons r rs ih =>
    obtain ⟨hr, hrs⟩ := List.forall_mem_cons.1 h
    exact .cons (.behind hr) rfl (fun hlo _ => by omega) (ih hrs)

end RegionsMoved

/-- Of trivia with a gap only the gap may be erased. -/
theorem Gap.Widens.regionsMoved {g : Gap} {lead : List Char} {old new : List Tree}
    (h : g.Widens lead old new) (lo : Nat) :
    RegionsMoved (lo + bytes lead) (bytes g.text) (commentRegions lo (Tree.leavesAll old))
        (commentRegions lo (Tree.leavesAll new)) ∧
      (g.kind = .blockComment → ⟨lo + bytes lead, lo + bytes lead + bytes g.text, .blank⟩ ∈
        commentRegions lo (Tree.leavesAll new)) := by
  cases h with
  | alone =>
    cases g with
    | spaces count => exact ⟨.nil, nofun⟩
    | comment body oneLine => exact ⟨.gap .nil, fun _ => List.mem_cons_self⟩
  | widened u v blank => exact ⟨.nil, fun h => by rw [blank] at h; cases h⟩
  | split u v =>
    cases g with
    | spaces count => exact ⟨.nil, nofun⟩
    | comment body oneLine => exact ⟨.gap .nil, fun _ => List.mem_cons_self⟩

theorem Gap.Widens.bytes_leavesAll {g : Gap} {lead : List Char} {old new : List Tree}
    (h : g.Widens lead old new) :
    bytes ((Tree.leavesAll new).flatMap (·.2)) =
        bytes ((Tree.leavesAll old).flatMap (·.2)) + bytes g.text ∧
      bytes lead ≤ bytes ((Tree.leavesAll old).flatMap (·.2)) := by
  have hsize := h.sizeAll_eq
  rwa [Tree.sizeAll_eq, Tree.sizeAll_eq] at hsize

/-- **The comments of a tree with a gap are those of the tree, moved**, and the gap if it is one. -/
theorem Tree.Spaced.regionsMoved {g : Gap} {p : Nat} {t t' : Tree} (h : t.Spaced g p t') :
    RegionsMoved p (bytes g.text) (commentRegions 0 t.leaves) (commentRegions 0 t'.leaves) ∧
      (g.kind = .blockComment →
        ⟨p, p + bytes g.text, .blank⟩ ∈ commentRegions 0 t'.leaves) := by
  obtain ⟨before, after, lead, old, new, widens, ht, ht', rfl⟩ := h.exists_leaves
  obtain ⟨hmoved, hgap⟩ := widens.regionsMoved (bytes (before.flatMap (·.2)))
  obtain ⟨hsize, hlead⟩ := widens.bytes_leavesAll
  rw [ht, ht']
  simp only [commentRegions_append, Nat.zero_add, hsize]
  rw [← Nat.add_assoc, commentRegions_add _ (bytes g.text)]
  constructor
  · refine (regionsMoved_ahead fun r hr => ?_).append
      (hmoved.append (regionsMoved_behind fun r hr => ?_))
    · have hbounds := le_of_mem_commentRegions hr
      omega
    · have hbounds := le_of_mem_commentRegions hr
      omega
  · exact fun hkind => List.mem_append_right _ (List.mem_append_left _ (hgap hkind))

end Script

/-! ### Literals -/

open Script (Gap Moved Tree NodeKind Turn)
open Script.Tree (node leaf Spaced occurrences occurrencesAll partScope sizeAll)
open Text (bytes)

/-- The literal `n` bytes further on. -/
def Occurrence.move (n : Nat) (x : Occurrence) : Occurrence :=
  { x with lo := x.lo + n, hi := x.hi + n }

/-- What becomes of a literal when `n` bytes are put in at the offset `p`; only a template can have
them inside. -/
inductive Occurrence.Moved (p n : Nat) (x : Occurrence) : Occurrence → Prop
  | ahead (h : x.hi ≤ p) : x.Moved p n x
  | around (hlo : x.lo < p) (hhi : p < x.hi) (delimiter : x.delimiter = .template)
      (pieces : x.pieces.isSome) : x.Moved p n { x with hi := x.hi + n }
  | behind (h : p ≤ x.lo) : x.Moved p n (x.move n)

namespace Script.Tree

mutual

/-- Of a tree that begins further on each literal is further on. -/
theorem occurrences_add (o : Options) (s : Scope) (tag : Option String) (lo n : Nat) : ∀ t : Tree,
    occurrences o s tag (lo + n) t = (occurrences o s tag lo t).map (Occurrence.move n)
  | leaf kind text => by
    cases kind with
    | trivia => rfl
    | lexeme kind =>
      cases kind with
      | string | regex =>
        rw [occurrences, occurrences, Nat.add_right_comm]
        cases s.origin? o none <;> rfl
      | markupText =>
        rw [occurrences, occurrences, Nat.add_right_comm]
        split <;> rfl
      | _ => rfl
  | node kind parts => by
    have hparts := occurrencesAll_add o (partScope s kind parts) (tagOf kind parts) lo n parts
    by_cases htemplate : kind = .template ∧ (s.origin? o tag).isSome = true
    · obtain ⟨rfl, horigin⟩ := htemplate
      obtain ⟨origin, horigin⟩ := Option.isSome_iff_exists.1 horigin
      rw [occurrences_of_origin? o s tag _ horigin, occurrences_of_origin? o s tag _ horigin,
        Nat.add_right_comm]
      rfl
    · have hnone : kind = .template → s.origin? o tag = none := fun hkind =>
        Option.not_isSome_iff_eq_none.1 fun h => htemplate ⟨hkind, h⟩
      rw [occurrences_of_parts o s tag _ parts hnone, occurrences_of_parts o s tag _ parts hnone,
        List.map_flatMap]
      congr 1
      funext turn
      exact hparts turn

theorem occurrencesAll_add (o : Options) (scope : Tree → Option Scope) (tag : Option String)
    (lo n : Nat) : ∀ (ts : List Tree) (turn : Turn), occurrencesAll o scope tag turn (lo + n) ts =
      (occurrencesAll o scope tag turn lo ts).map (Occurrence.move n)
  | [], _ => rfl
  | t :: ts, turn => by
    have hhere : occurrencesOf o tag (lo + n) scope t =
        (occurrencesOf o tag lo scope t).map (Occurrence.move n) := by
      unfold occurrencesOf
      cases scope t with
      | none => rfl
      | some s => exact occurrences_add o s tag lo n t
    have hrest := occurrencesAll_add o scope tag (lo + t.size) n ts turn
    rw [occurrencesAll_cons, occurrencesAll_cons, Nat.add_right_comm, hrest, hhere,
      List.map_append]
    split <;> rfl

end

/-- The literal is cut out of a text that begins at the offset `lo`. -/
def CutOut (lo : Nat) (s : List Char) (x : Occurrence) : Prop :=
  ∃ a outer b, s = a ++ outer ++ b ∧ x.lo = lo + bytes a ∧ x.hi = x.lo + bytes outer

theorem CutOut.append_left {lo : Nat} {s : List Char} {x : Occurrence} (h : CutOut lo s x)
    (t : List Char) : CutOut lo (s ++ t) x := by
  obtain ⟨a, outer, b, rfl, hlo, hhi⟩ := h
  exact ⟨a, outer, b ++ t, by simp, hlo, hhi⟩

theorem CutOut.append_right {lo : Nat} {s t : List Char} {x : Occurrence}
    (h : CutOut (lo + bytes s) t x) : CutOut lo (s ++ t) x := by
  obtain ⟨a, outer, b, rfl, hlo, hhi⟩ := h
  exact ⟨s ++ a, outer, b, by simp, by rw [hlo, Text.bytes_append, Nat.add_assoc], hhi⟩

theorem CutOut.le {lo : Nat} {s : List Char} {x : Occurrence} (h : CutOut lo s x) :
    lo ≤ x.lo ∧ x.hi ≤ lo + bytes s := by
  obtain ⟨a, outer, b, rfl, hlo, hhi⟩ := h
  rw [Text.bytes_append, Text.bytes_append]
  omega

/-- What is all of a text is cut out of it. -/
theorem cutOut_self {lo : Nat} {s : List Char} {x : Occurrence} (hlo : x.lo = lo)
    (hhi : x.hi = lo + bytes s) : CutOut lo s x :=
  ⟨[], s, [], by simp, hlo, by rw [hhi, hlo]⟩

mutual

/-- **The literals of a tree are cut out of its text.** -/
theorem cutOut_of_mem_occurrences {o : Options} : ∀ (t : Tree) {s : Scope} {tag : Option String}
    {lo : Nat}, ∀ x ∈ occurrences o s tag lo t, CutOut lo t.text x
  | leaf kind text, s, tag, lo => by
    intro x hx
    rw [text_leaf]
    cases kind with
    | trivia => cases hx
    | lexeme kind =>
      cases kind with
      | string | regex =>
        rw [occurrences, Option.mem_toList, Option.map_eq_some_iff] at hx
        obtain ⟨origin, -, rfl⟩ := hx
        exact cutOut_self rfl rfl
      | markupText =>
        rw [occurrences] at hx
        split at hx
        · obtain rfl := List.mem_singleton.1 hx
          exact cutOut_self rfl rfl
        · cases hx
      | _ => cases hx
  | node kind parts, s, tag, lo => by
    intro x hx
    by_cases htemplate : kind = .template ∧ (s.origin? o tag).isSome = true
    · obtain ⟨rfl, horigin⟩ := htemplate
      obtain ⟨origin, horigin⟩ := Option.isSome_iff_exists.1 horigin
      rw [occurrences_of_origin? o s tag _ horigin] at hx
      obtain rfl := List.mem_singleton.1 hx
      exact cutOut_self rfl (by rw [text_node, sizeAll_eq])
    · have hnone : kind = .template → s.origin? o tag = none := fun hkind =>
        Option.not_isSome_iff_eq_none.1 fun h => htemplate ⟨hkind, h⟩
      rw [occurrences_of_parts o s tag _ parts hnone] at hx
      obtain ⟨turn, -, hx⟩ := List.mem_flatMap.1 hx
      exact cutOut_of_mem_occurrencesAll parts x hx

theorem cutOut_of_mem_occurrencesAll {o : Options} : ∀ (ts : List Tree)
    {scope : Tree → Option Scope} {tag : Option String} {turn : Turn} {lo : Nat},
    ∀ x ∈ occurrencesAll o scope tag turn lo ts, CutOut lo (textAll ts) x
  | [], _, _, _, _ => fun x hx => absurd hx List.not_mem_nil
  | t :: ts, scope, tag, turn, lo => by
    intro x hx
    rw [occurrencesAll_cons, List.mem_append] at hx
    rw [textAll_cons]
    rcases hx with hx | hx
    · split_ifs at hx with hturn
      · unfold occurrencesOf at hx
        cases hscope : scope t with
        | none =>
          rw [hscope] at hx
          cases hx
        | some s =>
          rw [hscope] at hx
          exact (cutOut_of_mem_occurrences t x hx).append_left _
      · cases hx
    · have hrest := cutOut_of_mem_occurrencesAll ts x hx
      rw [size_eq] at hrest
      exact hrest.append_right

end

/-- The literals of trees are inside of them. -/
theorem le_of_mem_occurrencesAll {o : Options} (ts : List Tree) {scope : Tree → Option Scope}
    {tag : Option String} {turn : Turn} {lo : Nat} :
    ∀ x ∈ occurrencesAll o scope tag turn lo ts, lo ≤ x.lo ∧ x.hi ≤ lo + sizeAll ts := by
  intro x hx
  rw [sizeAll_eq]
  exact (cutOut_of_mem_occurrencesAll ts x hx).le

theorem occurrencesAll_append (o : Options) (scope : Tree → Option Scope) (tag : Option String)
    (turn : Turn) (lo : Nat) (ts us : List Tree) :
    occurrencesAll o scope tag turn lo (ts ++ us) = occurrencesAll o scope tag turn lo ts ++
      occurrencesAll o scope tag turn (lo + sizeAll ts) us := by
  induction ts generalizing lo with
  | nil => rfl
  | cons t ts ih =>
    rw [List.cons_append, occurrencesAll_cons, occurrencesAll_cons, ih, sizeAll, Nat.add_assoc,
      List.append_assoc]

/-- Where nothing is found in any part, nothing is found. -/
theorem occurrencesAll_eq_nil {o : Options} {scope : Tree → Option Scope} {tag : Option String}
    {ts : List Tree} (h : ∀ t ∈ ts, ∀ lo, occurrencesOf o tag lo scope t = []) (turn : Turn)
    (lo : Nat) : occurrencesAll o scope tag turn lo ts = [] := by
  induction ts generalizing lo with
  | nil => rfl
  | cons t ts ih =>
    obtain ⟨hnone, hts⟩ := List.forall_mem_cons.1 h
    rw [occurrencesAll_cons, ih hts, hnone, ite_self]
    rfl

/-- Trivia holds no literals. -/
theorem occurrencesAll_of_not_isSolid {ts : List Tree} (h : ∀ t ∈ ts, t.isSolid = false)
    (o : Options) (scope : Tree → Option Scope) (tag : Option String) (turn : Turn) (lo : Nat) :
    occurrencesAll o scope tag turn lo ts = [] := by
  refine occurrencesAll_eq_nil (fun t ht lo => ?_) turn lo
  obtain ⟨kind, text, rfl⟩ := eq_trivia_of_isSolid (h t ht)
  unfold occurrencesOf
  cases scope (leaf (.trivia kind) text) <;> rfl

/-- The scope that a node gives a part is up to the part's kind. -/
theorem partScope_node (s : Scope) (kind : NodeKind) (parts : List Tree) (k : NodeKind)
    (ts us : List Tree) :
    partScope s kind parts (node k ts) = partScope s kind parts (node k us) := by
  unfold partScope
  split
  case h_6 =>
    generalize callee? kind parts = callee
    cases callee <;> cases k <;> rfl
  all_goals cases k <;> rfl

section Occurrences

variable {g : Gap} {p lo : Nat} {o : Options}

/-- Literals that end before the gap stay. -/
theorem forall₂_occurrences_ahead {n : Nat} {xs : List Occurrence} (h : ∀ x ∈ xs, x.hi ≤ p) :
    List.Forall₂ (Occurrence.Moved p n) xs xs :=
  List.forall₂_same.2 fun x hx => .ahead (h x hx)

/-- Literals that begin behind the gap move. -/
theorem forall₂_occurrences_behind {n : Nat} {xs : List Occurrence} (h : ∀ x ∈ xs, p ≤ x.lo) :
    List.Forall₂ (Occurrence.Moved p n) xs (xs.map (Occurrence.move n)) := by
  rw [List.forall₂_map_right_iff, List.forall₂_same]
  exact fun x hx => .behind (h x hx)

/-- The literals of a node with a gap are moved if those of its parts are; a template that counts
has the gap inside. -/
theorem Spaced.occurrences_node {kind : NodeKind} {ts us : List Tree}
    (h : Spaced g p (node kind ts) (node kind us)) {s : Scope} {tag : Option String}
    (hparts : ∀ (scope : Tree → Option Scope) (tag : Option String) (turn : Turn),
      (∀ k xs ys, scope (node k xs) = scope (node k ys)) →
      List.Forall₂ (Occurrence.Moved (lo + p) (bytes g.text))
        (occurrencesAll o scope tag turn lo ts) (occurrencesAll o scope tag turn lo us)) :
    List.Forall₂ (Occurrence.Moved (lo + p) (bytes g.text)) (occurrences o s tag lo (node kind ts))
      (occurrences o s tag lo (node kind us)) := by
  have halike : Alike kind ts us := by
    obtain ⟨kind', ts', us', hts, hus, halike⟩ := h.exists_alike
    obtain ⟨rfl, rfl⟩ := node.inj hts
    obtain ⟨-, rfl⟩ := node.inj hus
    exact halike
  by_cases htemplate : kind = .template ∧ (s.origin? o tag).isSome = true
  · obtain ⟨rfl, horigin⟩ := htemplate
    obtain ⟨origin, horigin⟩ := Option.isSome_iff_exists.1 horigin
    obtain ⟨hlo, hhi⟩ := h.inside nofun
    have hsize := h.size_eq
    rw [size, size] at hsize
    rw [size] at hhi
    rw [occurrences_of_origin? o s tag _ horigin, occurrences_of_origin? o s tag _ horigin,
      hsize, ← Nat.add_assoc, ← halike.pieces]
    refine .cons (.around ?_ ?_ rfl rfl) .nil <;> dsimp only <;> omega
  · have hnone : kind = .template → s.origin? o tag = none := fun hkind =>
      Option.not_isSome_iff_eq_none.1 fun h => htemplate ⟨hkind, h⟩
    have hscope : partScope s kind ts = partScope s kind us := funext fun t => halike.partScope s t
    rw [occurrences_of_parts o s tag _ ts hnone, occurrences_of_parts o s tag _ us hnone, ← hscope,
      ← halike.tagOf]
    have hturns : List.Forall₂ (· = ·) Turn.all Turn.all := List.forall₂_refl _
    refine List.rel_flatMap hturns fun turn _ hturn => ?_
    obtain rfl := hturn
    exact hparts _ _ turn fun k xs ys => partScope_node s kind ts k xs ys

/-- The literals of parts are moved if those of the part with the gap are. -/
theorem forall₂_occurrencesAll {n : Nat} {before old new after : List Tree}
    {scope : Tree → Option Scope} {tag : Option String} {turn : Turn} (hlo : sizeAll before ≤ p)
    (hhi : p ≤ sizeAll before + sizeAll old) (hsize : sizeAll new = sizeAll old + n)
    (hpart : List.Forall₂ (Occurrence.Moved (lo + p) n)
      (occurrencesAll o scope tag turn (lo + sizeAll before) old)
      (occurrencesAll o scope tag turn (lo + sizeAll before) new)) :
    List.Forall₂ (Occurrence.Moved (lo + p) n)
      (occurrencesAll o scope tag turn lo (before ++ (old ++ after)))
      (occurrencesAll o scope tag turn lo (before ++ (new ++ after))) := by
  have hahead : ∀ x ∈ occurrencesAll o scope tag turn lo before, x.hi ≤ lo + p := fun x hx => by
    have hbounds := le_of_mem_occurrencesAll before x hx
    omega
  have hbehind : ∀ x ∈ occurrencesAll o scope tag turn (lo + sizeAll before + sizeAll old) after,
      lo + p ≤ x.lo := fun x hx => by
    have hbounds := le_of_mem_occurrencesAll after x hx
    omega
  have hmoved : lo + sizeAll before + (sizeAll old + n) =
      lo + sizeAll before + sizeAll old + n := by omega
  simp only [occurrencesAll_append, hsize]
  rw [hmoved, occurrencesAll_add _ _ _ _ n]
  exact List.rel_append (forall₂_occurrences_ahead hahead)
    (List.rel_append hpart (forall₂_occurrences_behind hbehind))

/-- **The literals of a tree with a gap are those of the tree, moved.** -/
theorem Spaced.occurrences {t t' : Tree} (h : Spaced g p t t') {s : Scope} {tag : Option String} :
    List.Forall₂ (Occurrence.Moved (lo + p) (bytes g.text)) (occurrences o s tag lo t)
      (occurrences o s tag lo t') := by
  induction h generalizing lo s tag with
  | @here lead old new kind before after widens inside =>
    obtain ⟨hold, hnew⟩ := widens.isSolid_eq_false
    obtain ⟨hsize, hlead⟩ := widens.sizeAll_eq
    refine (Spaced.here kind before after widens inside).occurrences_node ?_
    intro scope tag turn _
    refine forall₂_occurrencesAll (by omega) (by omega) hsize ?_
    rw [occurrencesAll_of_not_isSolid hold, occurrencesAll_of_not_isSolid hnew]
    exact .nil
  | @part q t t' kind before after spaced inside ih =>
    refine (Spaced.part kind before after spaced inside).occurrences_node ?_
    intro scope tag turn hscope
    have hle := spaced.le_size
    have hsize := spaced.size_eq
    obtain ⟨k, xs, ys, rfl, rfl, -⟩ := spaced.exists_alike
    -- The scope of a part is told by its kind, so the part with the gap is looked into as before.
    have hpart : List.Forall₂ (Occurrence.Moved (lo + (sizeAll before + q)) (bytes g.text))
        (occurrencesOf o tag (lo + sizeAll before) scope (node k xs))
        (occurrencesOf o tag (lo + sizeAll before) scope (node k ys)) := by
      unfold occurrencesOf
      rw [hscope k ys xs]
      cases scope (node k xs) with
      | none => exact .nil
      | some s =>
        rw [← Nat.add_assoc]
        exact ih
    -- So is its turn.
    have hturn : (node k ys).turn = (node k xs).turn := by cases k <;> rfl
    refine @forall₂_occurrencesAll _ lo o _ before [node k xs] [node k ys] after scope tag turn
      (by omega) ?_ ?_ ?_
    · simpa [sizeAll] using hle
    · simpa [sizeAll] using hsize
    · rw [occurrencesAll_cons, occurrencesAll_cons, hturn]
      refine List.rel_append ?_ .nil
      split_ifs with hthis
      · exact hpart
      · exact .nil

end Occurrences

end Script.Tree

end Untranslated
