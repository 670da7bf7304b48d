import Untranslated.Proofs.Erasure
import Untranslated.Proofs.Places
import Untranslated.Script.Stripping

/-!
# What is left of a stripped script

Stripping goes through regions in the order of their starts; what it leaves can be said of each
character alone (`Becomes`): a character inside a line comment is deleted, one inside a block
comment or a statement that brings in a module becomes a space, and any other is kept. A line
comment inside such a statement deletes nothing, as the statement starts first; where a comment
starts as early as a statement, the comment decides.

* `Becomes`: what becomes of a character, and `Becomes.unique`: nothing else does.
* `exists_strip`: stripping succeeds and keeps every line in place, changed by characters.
-/

namespace Untranslated.Script

open Text (Region Erasure IsBoundary bytes offsets offsetLines deciding eraseBy remains)

/-! ### What is erased -/

/-- The tree has a comment of a kind from `lo` to `hi`. -/
def HasComment (t : Tree) (kind : Trivia) (lo hi : Nat) : Prop :=
  ∃ before text after, t.leaves = before ++ (.trivia kind, text) :: after ∧
    lo = bytes (before.flatMap (·.2)) ∧ hi = lo + bytes text

/-- The tree has a statement from `lo` to `hi` that brings in a module, in no discarded part. -/
def HasModuleStatement (t : Tree) (lo hi : Nat) : Prop :=
  ∃ way u, t.Place way lo u ∧ (∀ step ∈ way, step.kind ≠ .discarded) ∧
    u.isModuleStatement = true ∧ hi = lo + u.size

/-- The end of a statement that ends at `hi`, with a semicolon right after it. -/
def widen (s : List Char) (hi : Nat) : Nat :=
  if (hi, ';') ∈ offsets 0 s then hi + 1 else hi

/-- From `lo` to `hi` the script `s` with the tree `t` has a statement that brings in a module,
and the semicolon right after it if there is one. -/
def HasStatement (s : List Char) (t : Tree) (lo hi : Nat) : Prop :=
  ∃ last, HasModuleStatement t lo last ∧ hi = widen s last

/-- What becomes of the character `c` at the offset `p` of the script `s` with the tree `t`. -/
inductive Becomes (s : List Char) (t : Tree) (p : Nat) (c : Char) : List Char → Prop
  /-- A character of a line comment is deleted, unless a statement around it starts first. -/
  | deleted {lo hi : Nat} (comment : HasComment t .lineComment lo hi) (inside : lo ≤ p ∧ p < hi)
      (first : ∀ lo' hi', HasStatement s t lo' hi' → lo' ≤ p ∧ p < hi' → lo ≤ lo') :
      Becomes s t p c []
  /-- A character of a block comment becomes a space. -/
  | comment {lo hi : Nat} (comment : HasComment t .blockComment lo hi)
      (inside : lo ≤ p ∧ p < hi) : Becomes s t p c [' ']
  /-- A character of a statement that brings in a module becomes a space, unless a line comment
  starts first. -/
  | statement {lo hi : Nat} (statement : HasStatement s t lo hi) (inside : lo ≤ p ∧ p < hi)
      (first : ∀ lo' hi', HasComment t .lineComment lo' hi' → lo' ≤ p ∧ p < hi' → lo < lo') :
      Becomes s t p c [' ']
  /-- Any other character is kept. -/
  | kept (noComment : ∀ kind lo hi, kind = .lineComment ∨ kind = .blockComment →
        HasComment t kind lo hi → ¬(lo ≤ p ∧ p < hi))
      (noStatement : ∀ lo hi, HasStatement s t lo hi → ¬(lo ≤ p ∧ p < hi)) :
      Becomes s t p c [c]

/-! ### Comments -/

/-- What becomes of a leaf that is a comment. -/
def erasure? : LeafKind → Option Erasure
  | .trivia .lineComment => some .drop
  | .trivia .blockComment => some .blank
  | _ => none

/-- The comments that an erasure is for. -/
def commentKind : Erasure → Trivia
  | .drop => .lineComment
  | .blank => .blockComment

theorem erasure?_eq_some {kind : LeafKind} {e : Erasure} :
    erasure? kind = some e ↔ kind = .trivia (commentKind e) := by
  constructor
  · intro h
    unfold erasure? at h
    split at h <;> cases h <;> rfl
  · rintro rfl
    cases e <;> rfl

theorem commentRegions_cons (lo : Nat) (kind : LeafKind) (text : List Char)
    (leaves : List (LeafKind × List Char)) :
    commentRegions lo ((kind, text) :: leaves) =
      ((erasure? kind).map fun e => ⟨lo, lo + bytes text, e⟩).toList ++
        commentRegions (lo + bytes text) leaves := by
  cases kind with
  | trivia kind => cases kind <;> rfl
  | lexeme => rfl

/-- The regions of the comments of a tree. -/
theorem mem_commentRegions {lo : Nat} {leaves : List (LeafKind × List Char)} {r : Region} :
    r ∈ commentRegions lo leaves ↔ ∃ before kind text after,
      leaves = before ++ (kind, text) :: after ∧ r.lo = lo + bytes (before.flatMap (·.2)) ∧
      r.hi = r.lo + bytes text ∧ erasure? kind = some r.erasure := by
  induction leaves generalizing lo with
  | nil => simp [commentRegions]
  | cons l ls ih =>
    obtain ⟨kind, text⟩ := l
    rw [commentRegions_cons, List.mem_append, ih, Option.mem_toList,
      Option.map_eq_some_iff]
    constructor
    · rintro (⟨e, he, rfl⟩ | ⟨before, kind', text', after, rfl, hlo, hhi, he⟩)
      · exact ⟨[], kind, text, ls, rfl, by simp, rfl, he⟩
      · refine ⟨(kind, text) :: before, kind', text', after, rfl, ?_, hhi, he⟩
        rw [hlo, List.flatMap_cons, Text.bytes_append, Nat.add_assoc]
    · rintro ⟨before, kind', text', after, hls, hlo, hhi, he⟩
      cases before with
      | nil =>
        obtain ⟨⟨rfl, rfl⟩, rfl⟩ : (kind = kind' ∧ text = text') ∧ ls = after := by simpa using hls
        obtain rfl : r.lo = lo := by simpa using hlo
        exact .inl ⟨r.erasure, he, by rw [← hhi]⟩
      | cons l before =>
        obtain ⟨rfl, rfl⟩ : (kind, text) = l ∧ ls = before ++ (kind', text') :: after := by
          simpa using hls
        rw [List.flatMap_cons, Text.bytes_append, ← Nat.add_assoc] at hlo
        exact .inr ⟨before, kind', text', after, rfl, hlo, hhi, he⟩

/-- The comments of a tree are the regions of its comments. -/
theorem hasComment_iff {t : Tree} {e : Erasure} {lo hi : Nat} :
    HasComment t (commentKind e) lo hi ↔ ⟨lo, hi, e⟩ ∈ commentRegions 0 t.leaves := by
  rw [mem_commentRegions]
  constructor
  · rintro ⟨before, text, after, hleaves, hlo, hhi⟩
    exact ⟨before, .trivia (commentKind e), text, after, hleaves, by simpa using hlo, hhi,
      erasure?_eq_some.2 rfl⟩
  · rintro ⟨before, kind, text, after, hleaves, hlo, hhi, he⟩
    obtain rfl := erasure?_eq_some.1 he
    exact ⟨before, text, after, hleaves, by simpa using hlo, hhi⟩

/-- The text of a comment stands in the text of the tree. -/
theorem HasComment.exists_text {t : Tree} {kind : Trivia} {lo hi : Nat}
    (h : HasComment t kind lo hi) : ∃ a text b, (.trivia kind, text) ∈ t.leaves ∧
      t.text = a ++ text ++ b ∧ lo = bytes a ∧ hi = bytes (a ++ text) := by
  obtain ⟨before, text, after, hleaves, rfl, rfl⟩ := h
  refine ⟨before.flatMap (·.2), text, after.flatMap (·.2), ?_, ?_, rfl, ?_⟩
  · rw [hleaves]
    simp
  · rw [Tree.text, hleaves]
    simp
  · rw [Text.bytes_append]

/-- No character is inside two comments. -/
theorem HasComment.eq_of_inside {t : Tree} {kind kind' : Trivia} {lo hi lo' hi' p : Nat}
    (h : HasComment t kind lo hi) (h' : HasComment t kind' lo' hi') (hp : lo ≤ p ∧ p < hi)
    (hp' : lo' ≤ p ∧ p < hi') : kind = kind' := by
  wlog hle : lo ≤ lo' generalizing kind kind' lo hi lo' hi'
  · exact (this h' h hp' hp (by omega)).symm
  obtain ⟨before, text, after, hleaves, hlo, hhi⟩ := h
  obtain ⟨before', text', after', hleaves', hlo', hhi'⟩ := h'
  have heq := hleaves.symm.trans hleaves'
  rcases List.append_eq_append_iff.1 heq with ⟨between, hbefore, hrest⟩ | ⟨between, hbefore, hrest⟩
  · cases between with
    | nil => exact (by simpa using hrest : (kind = kind' ∧ text = text') ∧ after = after').1.1
    | cons l between =>
      -- The second comment starts after the first one has ended.
      obtain ⟨rfl, -⟩ :
          (.trivia kind, text) = l ∧ after = between ++ (.trivia kind', text') :: after' := by
        simpa using hrest
      rw [hbefore] at hlo'
      simp only [List.flatMap_append, List.flatMap_cons, Text.bytes_append] at hlo'
      omega
  · cases between with
    | nil => exact (by simpa using hrest : (kind' = kind ∧ text' = text) ∧ after' = after).1.1.symm
    | cons l between =>
      obtain ⟨rfl, -⟩ :
          (.trivia kind', text') = l ∧ after' = between ++ (.trivia kind, text) :: after := by
        simpa using hrest
      rw [hbefore] at hlo
      simp only [List.flatMap_append, List.flatMap_cons, Text.bytes_append] at hlo
      omega

/-! ### Statements that bring in modules -/

namespace Tree

mutual

/-- Each range found in a part is that of a statement. -/
theorem hasModuleStatement_of_mem {root : Tree} : ∀ (t : Tree) {way : List Step} {lo : Nat},
    root.Place way lo t → (∀ step ∈ way, step.kind ≠ .discarded) →
      ∀ range ∈ t.moduleStatements lo, HasModuleStatement root range.1 range.2
  | leaf kind text, _, _, _, _ => by simp [moduleStatements]
  | node kind parts, way, lo, h, hway => by
    intro range hrange
    rw [moduleStatements] at hrange
    split at hrange
    case isTrue hu =>
      obtain rfl := List.mem_singleton.1 hrange
      exact ⟨way, _, h, hway, hu, rfl⟩
    case isFalse =>
      split at hrange
      case isTrue => exact absurd hrange List.not_mem_nil
      case isFalse hkind =>
        exact hasModuleStatement_of_mem_all parts [] h (by simpa using hkind) hway range hrange

/-- Each range found in the parts of a node is that of a statement. -/
theorem hasModuleStatement_of_mem_all {root : Tree} : ∀ (after before : List Tree)
    {kind : NodeKind} {way : List Step} {lo : Nat},
    root.Place way lo (node kind (before ++ after)) → kind ≠ .discarded →
      (∀ step ∈ way, step.kind ≠ .discarded) →
        ∀ range ∈ moduleStatementsAll (lo + sizeAll before) after,
          HasModuleStatement root range.1 range.2
  | [], _, _, _, _, _, _, _ => by simp [moduleStatementsAll]
  | t :: ts, before, kind, way, lo, h, hkind, hway => by
    intro range hrange
    rw [moduleStatementsAll, List.mem_append] at hrange
    rcases hrange with hrange | hrange
    · refine hasModuleStatement_of_mem t h.head ?_ range hrange
      simpa using ⟨hkind, hway⟩
    · have hlo : lo + sizeAll before + t.size = lo + sizeAll (before ++ [t]) := by
        rw [sizeAll_append, sizeAll, sizeAll, Nat.add_zero, Nat.add_assoc]
      rw [hlo] at hrange
      refine hasModuleStatement_of_mem_all ts (before ++ [t]) ?_ hkind hway range hrange
      simpa using h

end

/-- The ranges found in a part of a list are found in the list. -/
theorem moduleStatements_subset_all (before : List Tree) (t : Tree) (after : List Tree) (lo : Nat) :
    t.moduleStatements (lo + sizeAll before) ⊆ moduleStatementsAll lo (before ++ t :: after) := by
  induction before generalizing lo with
  | nil =>
    rw [List.nil_append, moduleStatementsAll, sizeAll, Nat.add_zero]
    exact List.subset_append_left _ _
  | cons u before ih =>
    rw [List.cons_append, moduleStatementsAll, sizeAll, ← Nat.add_assoc]
    exact fun range hrange => List.mem_append_right _ (ih (lo + u.size) hrange)

/-- A part that is not discarded either lies in a range that was found, or is looked through. -/
theorem Place.moduleStatements {root t : Tree} {way : List Step} {lo : Nat}
    (h : root.Place way lo t) (hway : ∀ step ∈ way, step.kind ≠ .discarded) :
    (∃ range ∈ root.moduleStatements 0, range.1 ≤ lo ∧ lo + t.size ≤ range.2) ∨
      t.moduleStatements lo ⊆ root.moduleStatements 0 := by
  induction h with
  | root => exact .inr fun _ h => h
  | @part way lo step _ ih =>
    obtain ⟨hkind, hway⟩ := List.forall_mem_cons.1 hway
    have hsize : (node step.kind step.parts).size =
        sizeAll step.before + step.part.size + sizeAll step.after := by
      rw [size, Step.parts, sizeAll_append, sizeAll, Nat.add_assoc]
    rcases ih hway with ⟨range, hrange, hlo, hhi⟩ | hsub
    · exact .inl ⟨range, hrange, by omega, by omega⟩
    · rw [Tree.moduleStatements] at hsub
      split at hsub
      case isTrue =>
        exact .inl ⟨_, hsub List.mem_cons_self, by dsimp only; omega, by dsimp only; omega⟩
      case isFalse =>
        rw [if_neg (by simpa using hkind)] at hsub
        exact .inr fun range hrange =>
          hsub (moduleStatements_subset_all step.before step.part step.after lo hrange)

end Tree

/-- Every statement that brings in a module lies in a range that is found. -/
theorem HasModuleStatement.exists_range {t : Tree} {lo hi : Nat} (h : HasModuleStatement t lo hi) :
    ∃ range ∈ t.moduleStatements 0, range.1 ≤ lo ∧ hi ≤ range.2 := by
  obtain ⟨way, u, hplace, hway, hu, rfl⟩ := h
  rcases hplace.moduleStatements hway with hrange | hsub
  · exact hrange
  · refine ⟨(lo, lo + u.size), hsub ?_, Nat.le_refl _, Nat.le_refl _⟩
    cases u with
    | leaf => simp [Tree.isModuleStatement] at hu
    | node kind parts => rw [Tree.moduleStatements, if_pos hu, List.mem_singleton]

theorem le_widen (s : List Char) (hi : Nat) : hi ≤ widen s hi ∧ widen s hi ≤ hi + 1 := by
  unfold widen
  split <;> omega

/-- A statement inside another one takes no semicolon that the other does not. -/
theorem widen_mono (s : List Char) {hi hi' : Nat} (h : hi ≤ hi') : widen s hi ≤ widen s hi' := by
  rcases Nat.eq_or_lt_of_le h with rfl | h
  · exact Nat.le_refl _
  · have hle := (le_widen s hi).2
    have hle' := (le_widen s hi').1
    omega

theorem HasModuleStatement.isBoundary {t : Tree} {lo hi : Nat} (h : HasModuleStatement t lo hi) :
    IsBoundary t.text lo ∧ IsBoundary t.text hi := by
  obtain ⟨way, u, hplace, -, -, rfl⟩ := h
  obtain ⟨a, b, htext, rfl⟩ := hplace.exists_text
  refine ⟨⟨a, u.text ++ b, by rw [htext, List.append_assoc], rfl⟩, ⟨a ++ u.text, b, htext.symm, ?_⟩⟩
  rw [Text.bytes_append, Tree.size_eq]

theorem isBoundary_widen {s : List Char} {hi : Nat} (h : IsBoundary s hi) :
    IsBoundary s (widen s hi) := by
  unfold widen
  split
  case isTrue hsign =>
    obtain ⟨a, b, rfl, hp⟩ := Text.mem_offsets.1 hsign
    refine ⟨a ++ [';'], b, by simp, ?_⟩
    have hsize : ';'.utf8Size = 1 := rfl
    rw [Text.bytes_append, Text.bytes_cons, Text.bytes_nil]
    omega
  case isFalse => exact h

/-- A statement is widened where the semicolon follows it. -/
theorem statementRegion?_eq {s : List Char} {range : Nat × Nat} (h : IsBoundary s range.2) :
    statementRegion? s range = some ⟨range.1, widen s range.2, .blank⟩ := by
  obtain ⟨a, b, rfl, ha⟩ := h
  rw [statementRegion?, ← ha, Text.cut?_append]
  simp only [Option.bind_eq_bind, Option.bind_some, Option.pure_def, beq_iff_eq, widen,
    Text.mem_offsets_append]

/-! ### All regions -/

/-- The regions of a script `s` with the tree `t`. -/
def allRegions (s : List Char) (t : Tree) : List Region :=
  commentRegions 0 t.leaves ++
    (t.moduleStatements 0).map fun range => ⟨range.1, widen s range.2, .blank⟩

/-- Each range found in a tree is that of a statement. -/
theorem hasModuleStatement_of_mem {t : Tree} {range : Nat × Nat}
    (h : range ∈ t.moduleStatements 0) : HasModuleStatement t range.1 range.2 :=
  Tree.hasModuleStatement_of_mem t .root (by simp) range h

theorem mapM_eq_some_iff {α β : Type} {f : α → Option β} {xs : List α} {ys : List β} :
    xs.mapM f = some ys ↔ List.Forall₂ (fun x y => f x = some y) xs ys := by
  induction xs generalizing ys with
  | nil =>
    rw [List.forall₂_nil_left_iff]
    exact ⟨fun h => (Option.some.inj h).symm, fun h => congrArg some h.symm⟩
  | cons x xs ih =>
    rw [List.mapM_cons, List.forall₂_cons_left_iff]
    simp only [Option.bind_eq_bind, Option.bind_eq_some_iff, ih, Option.pure_def,
      Option.some.injEq, eq_comm (b := ys)]
    exact ⟨fun ⟨y, hy, zs, hzs, heq⟩ => ⟨y, zs, hy, hzs, heq⟩,
      fun ⟨y, zs, hy, hzs, heq⟩ => ⟨y, hy, zs, hzs, heq⟩⟩

theorem mapM_eq_some {α β : Type} {f : α → Option β} {g : α → β} {xs : List α}
    (h : ∀ x ∈ xs, f x = some (g x)) : xs.mapM f = some (xs.map g) :=
  mapM_eq_some_iff.2 (List.forall₂_map_right_iff.2 (List.forall₂_same.2 h))

/-- The tree of a script has regions. -/
theorem regions?_eq (t : Tree) : regions? t.text t = some (allRegions t.text t) := by
  have h : (t.moduleStatements 0).mapM (statementRegion? t.text) =
      some ((t.moduleStatements 0).map fun range => ⟨range.1, widen t.text range.2, .blank⟩) :=
    mapM_eq_some fun range hrange =>
      statementRegion?_eq (hasModuleStatement_of_mem hrange).isBoundary.2
  rw [regions?, h]
  rfl

/-- No region cuts a character. -/
theorem isBoundary_of_mem_allRegions {t : Tree} {r : Region} (h : r ∈ allRegions t.text t) :
    IsBoundary t.text r.lo ∧ IsBoundary t.text r.hi := by
  rcases List.mem_append.1 h with h | h
  · obtain ⟨a, text, b, -, htext, hlo, hhi⟩ := (hasComment_iff.2 h).exists_text
    exact ⟨⟨a, text ++ b, by rw [htext, List.append_assoc], hlo.symm⟩,
      ⟨a ++ text, b, htext.symm, hhi.symm⟩⟩
  · obtain ⟨range, hrange, rfl⟩ := List.mem_map.1 h
    obtain ⟨hlo, hhi⟩ := (hasModuleStatement_of_mem hrange).isBoundary
    exact ⟨hlo, isBoundary_widen hhi⟩

/-- Whatever covers a character, the region that decides about it starts no later. -/
theorem lo_le_of_deciding {t : Tree} {p : Nat} {r : Region}
    (hr : deciding (allRegions t.text t) p = some r) {lo hi : Nat}
    (h : HasStatement t.text t lo hi ∨ ∃ e, HasComment t (commentKind e) lo hi)
    (hp : lo ≤ p ∧ p < hi) : r.lo ≤ lo := by
  obtain ⟨q, hq, hlo, hhi⟩ : ∃ q ∈ allRegions t.text t, q.lo ≤ lo ∧ hi ≤ q.hi := by
    rcases h with ⟨last, h, rfl⟩ | ⟨e, h⟩
    · obtain ⟨range, hrange, hlo, hhi⟩ := h.exists_range
      exact ⟨_, List.mem_append_right _ (List.mem_map_of_mem hrange), hlo, widen_mono _ hhi⟩
    · exact ⟨_, List.mem_append_left _ (hasComment_iff.1 h), Nat.le_refl _, Nat.le_refl _⟩
  have hcovers : q.covers p = true := Region.covers_iff.2 (by omega)
  exact (Text.lo_le_of_covers hr hq hcovers).trans hlo

/-- A comment that starts as early as a statement decides. -/
theorem lo_lt_of_deciding {t : Tree} {p : Nat} {r : Region}
    (hr : deciding (allRegions t.text t) p = some r) (hcomment : r ∉ commentRegions 0 t.leaves)
    {e : Erasure} {lo hi : Nat} (h : HasComment t (commentKind e) lo hi) (hp : lo ≤ p ∧ p < hi) :
    r.lo < lo := by
  rcases Nat.eq_or_lt_of_le (lo_le_of_deciding hr (.inr ⟨e, h⟩) hp) with heq | hlt
  · -- Of regions that start together the first in the list decides, and comments come first.
    have hmem : (⟨lo, hi, e⟩ : Region) ∈ (commentRegions 0 t.leaves).filter (·.covers p) :=
      List.mem_filter.2 ⟨hasComment_iff.1 h, Region.covers_iff.2 hp⟩
    have hnot : r ∉ (commentRegions 0 t.leaves).filter (·.covers p) :=
      fun hr' => hcomment (List.mem_filter.1 hr').1
    rw [deciding, allRegions, List.filter_append] at hr
    have hindex := List.index_of_argmin hr (List.mem_append_left _ hmem) (Nat.le_of_eq heq.symm)
    rw [List.idxOf_append_of_notMem hnot, List.idxOf_append_of_mem hmem] at hindex
    have hlt := List.idxOf_lt_length_of_mem hmem
    omega
  · exact hlt

/-! ### What becomes of a character -/

/-- The region that decides about a character of a script makes of it what is said. -/
theorem becomes_of_deciding (t : Tree) (p : Nat) {c : Char} (hc : c ≠ '\n') :
    Becomes t.text t p c (remains (deciding (allRegions t.text t) p) c) := by
  cases hr : deciding (allRegions t.text t) p with
  | none =>
    have hnone : ∀ q ∈ allRegions t.text t, ¬(q.lo ≤ p ∧ p < q.hi) := by
      simpa only [Region.covers_iff] using Text.deciding_eq_none_iff.1 hr
    refine .kept ?_ ?_
    · rintro kind lo hi (rfl | rfl) h
      · exact hnone _ (List.mem_append_left _ (hasComment_iff (e := .drop).1 h))
      · exact hnone _ (List.mem_append_left _ (hasComment_iff (e := .blank).1 h))
    · rintro lo hi ⟨last, h, rfl⟩ hp
      obtain ⟨range, hrange, hlo, hhi⟩ := h.exists_range
      have hwiden := widen_mono t.text hhi
      exact hnone _ (List.mem_append_right _ (List.mem_map_of_mem hrange))
        ⟨hlo.trans hp.1, hp.2.trans_le hwiden⟩
  | some r =>
    obtain ⟨hmem, hcovers⟩ := Text.mem_of_deciding hr
    have hp := Region.covers_iff.1 hcovers
    by_cases hcomment : r ∈ commentRegions 0 t.leaves
    · have h := hasComment_iff.2 hcomment
      cases he : r.erasure with
      | drop =>
        rw [he] at h
        rw [remains, Option.elim_some, he]
        exact .deleted h hp fun lo hi h' hp' => lo_le_of_deciding hr (.inl h') hp'
      | blank =>
        rw [he] at h
        rw [remains, Option.elim_some, he, Erasure.apply, List.map_singleton,
          if_neg (by simpa using hc)]
        exact .comment h hp
    · obtain ⟨range, hrange, rfl⟩ := List.mem_map.1 ((List.mem_append.1 hmem).resolve_left hcomment)
      rw [remains, Option.elim_some, Erasure.apply, List.map_singleton, if_neg (by simpa using hc)]
      exact .statement ⟨range.2, hasModuleStatement_of_mem hrange, rfl⟩ hp
        fun lo hi h' hp' => lo_lt_of_deciding (e := .drop) hr hcomment h' hp'

/-- What becomes of a character is determined. -/
theorem Becomes.unique {s : List Char} {t : Tree} {p : Nat} {c : Char} {xs ys : List Char}
    (hx : Becomes s t p c xs) (hy : Becomes s t p c ys) : xs = ys := by
  cases hx with
  | deleted hcomment hp hfirst =>
    cases hy with
    | deleted => rfl
    | comment h hp' => exact absurd (hcomment.eq_of_inside h hp hp') (by decide)
    | statement h hp' hfirst' =>
      have hle := hfirst _ _ h hp'
      have hlt := hfirst' _ _ hcomment hp
      omega
    | kept hnone _ => exact absurd hp (hnone _ _ _ (.inl rfl) hcomment)
  | comment hcomment hp =>
    cases hy with
    | deleted h hp' _ => exact absurd (hcomment.eq_of_inside h hp hp') (by decide)
    | comment => rfl
    | statement => rfl
    | kept hnone _ => exact absurd hp (hnone _ _ _ (.inr rfl) hcomment)
  | statement hstatement hp hfirst =>
    cases hy with
    | deleted h hp' hfirst' =>
      have hle := hfirst' _ _ hstatement hp
      have hlt := hfirst _ _ h hp'
      omega
    | comment => rfl
    | statement => rfl
    | kept _ hnone => exact absurd hp (hnone _ _ hstatement)
  | kept hcomment hstatement =>
    cases hy with
    | deleted h hp _ => exact absurd hp (hcomment _ _ _ (.inl rfl) h)
    | comment h hp => exact absurd hp (hcomment _ _ _ (.inr rfl) h)
    | statement h hp _ => exact absurd hp (hstatement _ _ h)
    | kept => rfl

/-! ### Lines -/

theorem dropMark_of_head? {s : List Char} (h : s.head? ≠ some '\ufeff') : dropMark s = s := by
  unfold dropMark
  split
  case h_1 => exact absurd rfl h
  case h_2 => rfl

theorem parse_of_read {dialect : Dialect} {s : List Char} {t : Tree}
    (h : read dialect s = .ok t) : parse dialect (dropMark s) = .ok t := by
  unfold read at h
  dsimp only at h
  split at h
  case h_1 hparse => rw [hparse, Except.ok.inj h]
  case h_2 => cases h

/-- The text of the tree of a script without a byte order mark. -/
theorem text_of_read {dialect : Dialect} {s : List Char} {t : Tree}
    (hmark : s.head? ≠ some '\ufeff') (h : read dialect s = .ok t) : t.text = s := by
  have hparse := parse_of_read h
  rw [dropMark_of_head? hmark] at hparse
  exact text_of_parse hparse

/-- No newline is in a line comment, so none is dropped. -/
theorem notMem_offsets_of_drop {t : Tree} (hends : Tree.CommentsEnd t.leaves) {p : Nat} {r : Region}
    (hr : deciding (allRegions t.text t) p = some r) (hdrop : r.erasure = .drop) :
    (p, '\n') ∉ offsets 0 t.text := by
  intro hnewline
  obtain ⟨hmem, hcovers⟩ := Text.mem_of_deciding hr
  have hp := Region.covers_iff.1 hcovers
  rcases List.mem_append.1 hmem with hmem | hmem
  · have h : HasComment t (commentKind .drop) r.lo r.hi := by
      rw [hasComment_iff, ← hdrop]
      exact hmem
    obtain ⟨a, text, b, hleaf, htext, hlo, hhi⟩ := h.exists_text
    rw [htext] at hnewline
    rw [hlo, hhi] at hp
    exact hends _ hleaf rfl (Text.mem_of_mem_offsets hnewline hp.1 hp.2)
  · obtain ⟨range, -, rfl⟩ := List.mem_map.1 hmem
    cases hdrop

/-- **Stripping keeps every line in place.** A script that is accepted and has no byte order mark
is stripped, into as many lines as it has; each line is that of the script with its characters
changed as `Becomes` says, and in their order. -/
theorem exists_strip {dialect : Dialect} {s : List Char} {t : Tree}
    (hmark : s.head? ≠ some '\ufeff') (h : read dialect s = .ok t) :
    ∃ out f, strip dialect s = .ok out ∧ out.count '\n' = s.count '\n' ∧
      Text.splitLines out = (offsetLines s).map (·.flatMap f) ∧
      ∀ line ∈ offsetLines s, ∀ x ∈ line, Becomes s t x.1 x.2 (f x) := by
  have hparse := parse_of_read h
  rw [dropMark_of_head? hmark] at hparse
  have htext : t.text = s := text_of_parse hparse
  have hends := commentsEnd_of_parse hparse
  subst htext
  let decides := deciding (allRegions t.text t)
  have hlines : Text.splitLines (eraseBy decides 0 t.text) =
      (offsetLines t.text).map (·.flatMap fun x => remains (decides x.1) x.2) :=
    Text.splitLines_eraseBy fun p r hr hdrop => notMem_offsets_of_drop hends hr hdrop
  refine ⟨eraseBy decides 0 t.text, fun x => remains (decides x.1) x.2, ?_, ?_, hlines, ?_⟩
  · have herase := Text.erase_eq fun r hr => isBoundary_of_mem_allRegions (t := t) hr
    rw [strip, h]
    simp only [bind, Except.bind, regions?_eq, herase]
    rfl
  · have hcount := congrArg List.length hlines
    have hsame := congrArg List.length (Text.map_snd_offsetLines t.text)
    rw [List.length_map, Text.length_splitLines] at hcount hsame
    omega
  · intro line hline x hx
    exact becomes_of_deciding t x.1 (Text.ne_newline_of_mem_offsetLines hline hx)

/-- A script with comments inside a statement that brings in a module, and one after another. -/
def mixedScript : List Char :=
  "import /* a */ 'm' // b\n; c; // d\n".toList

/-- The mixed script keeps its lines. -/
theorem exists_strip_mixedScript :
    ∃ t, mixedScript.head? ≠ some '\ufeff' ∧ read .typedMarkup mixedScript = .ok t ∧
      ∃ out f, strip .typedMarkup mixedScript = .ok out ∧
        out.count '\n' = mixedScript.count '\n' ∧
        Text.splitLines out = (offsetLines mixedScript).map (·.flatMap f) ∧
        ∀ line ∈ offsetLines mixedScript, ∀ x ∈ line, Becomes mixedScript t x.1 x.2 (f x) := by
  have hmark : mixedScript.head? ≠ some '\ufeff' := by decide +kernel
  have hok : (read .typedMarkup mixedScript).isOk = true := by decide +kernel
  cases h : read .typedMarkup mixedScript with
  | error => rw [h] at hok; cases hok
  | ok t => exact ⟨t, hmark, rfl, exists_strip hmark h⟩

end Untranslated.Script
