import Untranslated.Proofs.MovedRanges
import Untranslated.Proofs.SecondReading

/-!
# Scripts with a gap

What stripping leaves of a script with a gap is what it left without it, with spaces where the gap
is (`ReadsAlike.strip_spaced`): a comment is blanked, and spaces stay as they are or are part of a
statement that is blanked.

* `shift`: where a character is found behind a gap.
* `eraseBy_gap`: erasing regions that are moved.
* `ReadsAlike`: a script that is read as itself with a gap in it.
-/

namespace Untranslated

namespace Script

open Text (Region bytes offsets deciding eraseBy remains)

/-! ### What is erased around a gap -/

/-- Where the character at an offset is found when `n` bytes are put in at the offset `p`. -/
def shift (p n i : Nat) : Nat :=
  if i < p then i else i + n

theorem shift_cases (p n i : Nat) :
    i < p ∧ shift p n i = i ∨ p ≤ i ∧ shift p n i = i + n := by
  unfold shift
  split <;> omega

section Erasing

variable {p n : Nat} {rs rs' : List Region}

/-- A region that is moved covers the characters that it covered. -/
theorem Moved.covers_shift {r r' : Region} (h : Moved p n r.lo r.hi r'.lo r'.hi) (i : Nat) :
    (r'.covers (shift p n i) = true ↔ r.covers i = true) ∧
      (r.covers i = true → r'.lo = shift p n r.lo) := by
  obtain ⟨lo, hi, e⟩ := r
  obtain ⟨lo', hi', e'⟩ := r'
  have hshift := shift_cases p n i
  have hlo := shift_cases p n lo
  rw [Region.covers_iff, Region.covers_iff]
  dsimp only at h ⊢
  cases h <;> omega

/-- Moving regions keeps which of them cover a character, and their order. -/
theorem RegionsMoved.filter_covers (h : RegionsMoved p n rs rs') (i : Nat) :
    List.Forall₂ (fun r r' => r'.lo = shift p n r.lo ∧ r'.erasure = r.erasure)
      (rs.filter (·.covers i)) (rs'.filter (·.covers (shift p n i))) := by
  induction h with
  | nil => exact .nil
  | cons moved same _ _ ih =>
    obtain ⟨hcovers, hlo⟩ := moved.covers_shift i
    rw [List.filter_cons, List.filter_cons]
    simp only [hcovers]
    split
    case isTrue hr => exact .cons ⟨hlo hr, same⟩ ih
    case isFalse => exact ih
  | gap _ ih =>
    rw [List.filter_cons_of_neg]
    · exact ih
    · have hshift := shift_cases p n i
      rw [Region.covers_iff]
      dsimp only
      omega

theorem argmin_of_forall₂ {α β : Type} {R : α → β → Prop} {f : α → Nat} {f' : β → Nat}
    (hlt : ∀ a b a' b', R a a' → R b b' → (f a < f b ↔ f' a' < f' b')) {xs : List α}
    {ys : List β} (h : List.Forall₂ R xs ys) : Option.Rel R (xs.argmin f) (ys.argmin f') := by
  induction h with
  | nil => exact .none
  | @cons a b xs ys hab _ ih =>
    rw [List.argmin_cons, List.argmin_cons]
    generalize xs.argmin f = x at ih
    generalize ys.argmin f' = y at ih
    cases ih with
    | none => exact .some hab
    | @some c d hcd =>
      dsimp only
      simp only [hlt _ _ _ _ hcd hab]
      split
      · exact .some hcd
      · exact .some hab

/-- **The same becomes of a character when a gap is put in somewhere else.** -/
theorem RegionsMoved.deciding_shift (h : RegionsMoved p n rs rs') (i : Nat) :
    (deciding rs' (shift p n i)).map Region.erasure = (deciding rs i).map Region.erasure := by
  have hlt : ∀ a b a' b' : Region,
      a'.lo = shift p n a.lo ∧ a'.erasure = a.erasure →
      b'.lo = shift p n b.lo ∧ b'.erasure = b.erasure → (a.lo < b.lo ↔ a'.lo < b'.lo) := by
    rintro a b a' b' ⟨ha, -⟩ ⟨hb, -⟩
    have hacases := shift_cases p n a.lo
    have hbcases := shift_cases p n b.lo
    omega
  have hrel := argmin_of_forall₂ hlt (h.filter_covers i)
  unfold deciding
  generalize (rs.filter (·.covers i)).argmin Region.lo = x at hrel
  generalize (rs'.filter (·.covers (shift p n i))).argmin Region.lo = y at hrel
  cases hrel with
  | none => rfl
  | some hr => exact congrArg some hr.2

/-- What covers a character of the gap is blanked. -/
theorem RegionsMoved.blank_of_covers (h : RegionsMoved p n rs rs') {r : Region} (hr : r ∈ rs')
    {i : Nat} (hi : p ≤ i ∧ i < p + n) (hcovers : r.covers i = true) : r.erasure = .blank := by
  induction h with
  | nil => cases hr
  | @cons q q' _ _ moved same blank _ ih =>
    rcases List.mem_cons.1 hr with rfl | hr
    · rw [same]
      rw [Region.covers_iff] at hcovers
      obtain ⟨lo, hi, e⟩ := q
      obtain ⟨lo', hi', e'⟩ := r
      dsimp only at moved blank hcovers
      cases moved with
      | ahead h => omega
      | around hlo hhi => exact blank hlo hhi
      | behind h => omega
    · exact ih hr
  | gap _ ih =>
    rcases List.mem_cons.1 hr with rfl | hr
    · rfl
    · exact ih hr

/-- Characters that are blanked, or are spaces and kept, leave spaces. -/
theorem eraseBy_eq_replicate {decides : Nat → Option Region} {lo : Nat} {s : List Char}
    (hline : '\n' ∉ s) (hblank : ∀ i, lo ≤ i → i < lo + bytes s → ∀ r, decides i = some r →
      r.erasure = .blank)
    (hspace : ∀ i, lo ≤ i → i < lo + bytes s → decides i = none → ∀ c ∈ s, c = ' ') :
    eraseBy decides lo s = List.replicate s.length ' ' := by
  have hchar : ∀ x ∈ offsets lo s, remains (decides x.1) x.2 = [' '] := by
    intro x hx
    obtain ⟨hlo, hhi⟩ := Text.le_of_mem_offsets hx
    have hmem : x.2 ∈ s := by
      rw [← Text.map_snd_offsets lo s]
      exact List.mem_map_of_mem hx
    cases hr : decides x.1 with
    | none => rw [hspace x.1 hlo hhi hr x.2 hmem]; rfl
    | some r =>
      have hne : x.2 ≠ '\n' := fun h => hline (h ▸ hmem)
      simp [remains, hblank x.1 hlo hhi r hr, Text.Erasure.apply, hne]
  have hlength : (offsets lo s).length = s.length := by
    rw [← List.length_map (f := Prod.snd), Text.map_snd_offsets]
  calc eraseBy decides lo s = (offsets lo s).flatMap fun _ => [' '] := List.flatMap_congr hchar
    _ = (offsets lo s).map fun _ => ' ' := List.map_eq_flatMap.symm
    _ = List.replicate s.length ' ' := by rw [List.map_const', hlength]

/-- **Erasing around a gap**: what is left before it and behind it is what was left without it, and
the gap leaves spaces. -/
theorem eraseBy_gap {g : Gap} {rs rs' : List Region} {a b : List Char}
    (h : RegionsMoved (bytes a) (bytes g.text) rs rs')
    (hgap : g.kind = .blockComment → ⟨bytes a, bytes a + bytes g.text, .blank⟩ ∈ rs') :
    eraseBy (deciding rs') 0 (a ++ (g.text ++ b)) =
      eraseBy (deciding rs) 0 a ++ (g.blanked.text ++ eraseBy (deciding rs) (bytes a) b) := by
  have hbefore : eraseBy (deciding rs') 0 a = eraseBy (deciding rs) 0 a := by
    apply List.flatMap_congr
    intro x hx
    have hlt := (Text.le_of_mem_offsets hx).2
    rw [Nat.zero_add] at hlt
    have hdecides := h.deciding_shift x.1
    rw [shift, if_pos hlt] at hdecides
    exact Text.remains_congr hdecides x.2
  have hbehind : eraseBy (deciding rs') (bytes a + bytes g.text) b =
      eraseBy (deciding rs) (bytes a) b := by
    apply Text.eraseBy_add
    intro i hi
    have hdecides := h.deciding_shift i
    rwa [shift, if_neg (by omega)] at hdecides
  have hinside : eraseBy (deciding rs') (bytes a) g.text = g.blanked.text := by
    refine eraseBy_eq_replicate g.newline_notMem_text ?_ ?_
    · intro i hlo hhi r hr
      obtain ⟨hmem, hcovers⟩ := Text.mem_of_deciding hr
      exact h.blank_of_covers hmem ⟨hlo, hhi⟩ hcovers
    · intro i hlo hhi hnone
      cases g with
      | spaces count => simp [Gap.text]
      | comment body oneLine =>
        -- The comment is a region of its own, so something decides about each of its characters.
        have hcovers := Text.deciding_eq_none_iff.1 hnone _ (hgap rfl)
        exact absurd (Region.covers_iff.2 ⟨hlo, hhi⟩) hcovers
  rw [Text.eraseBy_append, Text.eraseBy_append, Nat.zero_add, hbefore, hinside, hbehind]

end Erasing

/-! ### Stripping a script with a gap -/

section Widen

variable {a b : List Char} {hi : Nat}

/-- What stands behind a text has no say in what stands in it. -/
theorem mem_offsets_of_lt (b : List Char) (h : hi < bytes a) (c : Char) :
    (hi, c) ∈ offsets 0 (a ++ b) ↔ (hi, c) ∈ offsets 0 a := by
  rw [Text.offsets_append, List.mem_append]
  refine ⟨fun hmem => hmem.resolve_right fun hmem => ?_, .inl⟩
  have hle := (Text.le_of_mem_offsets hmem).1
  dsimp only at hle
  omega

theorem mem_offsets_of_le (h : bytes a ≤ hi) (c : Char) :
    (hi, c) ∈ offsets 0 (a ++ b) ↔ (hi, c) ∈ offsets (bytes a) b := by
  rw [Text.offsets_append, List.mem_append, Nat.zero_add]
  refine ⟨fun hmem => hmem.resolve_left fun hmem => ?_, .inr⟩
  have hlt := (Text.le_of_mem_offsets hmem).2
  dsimp only at hlt
  omega

theorem widen_of_lt (b b' : List Char) (h : hi < bytes a) :
    widen (a ++ b) hi = widen (a ++ b') hi := by
  unfold widen
  simp only [mem_offsets_of_lt _ h]

theorem widen_of_le (gap : List Char) (h : bytes a ≤ hi) :
    widen (a ++ (gap ++ b)) (hi + bytes gap) = widen (a ++ b) hi + bytes gap := by
  have hmoved : (hi + bytes gap, ';') ∈ offsets 0 (a ++ (gap ++ b)) ↔
      (hi, ';') ∈ offsets 0 (a ++ b) := by
    have hle : bytes (a ++ gap) ≤ hi + bytes gap := by
      rw [Text.bytes_append]
      omega
    rw [← List.append_assoc, mem_offsets_of_le hle, mem_offsets_of_le h, Text.bytes_append,
      Text.offsets_add, List.mem_map]
    constructor
    · rintro ⟨x, hx, heq⟩
      obtain ⟨hlo, hc⟩ := Prod.mk.inj heq
      obtain rfl : x = (hi, ';') := Prod.ext (by dsimp only; omega) hc
      exact hx
    · exact fun hx => ⟨_, hx, rfl⟩
  unfold widen
  simp only [hmoved]
  split <;> omega

end Widen

/-- A gap begins with no semicolon and no byte order mark. -/
theorem Gap.head?_text_append (g : Gap) {c : Char} (hspace : c ≠ ' ') (hslash : c ≠ '/')
    {b : List Char} (h : b.head? ≠ some c) : (g.text ++ b).head? ≠ some c := by
  cases g with
  | spaces count =>
    cases count with
    | zero => exact h
    | succ count => simpa [Gap.text, List.replicate_succ] using hspace.symm
  | comment body oneLine => simpa [Gap.text] using hslash.symm

/-- The statements of a script with a gap are moved with the semicolons after them, unless the gap
comes between the two. -/
theorem moved_widen {g : Gap} {a b : List Char} {lo hi lo' hi' : Nat} (hle : lo ≤ hi)
    (hsemicolon : hi = bytes a → b.head? ≠ some ';')
    (h : Moved (bytes a) (bytes g.text) lo hi lo' hi') :
    Moved (bytes a) (bytes g.text) lo (widen (a ++ b) hi) lo'
      (widen (a ++ (g.text ++ b)) hi') := by
  cases h with
  | ahead hhi =>
    rcases Nat.lt_or_eq_of_le hhi with hlt | rfl
    · rw [widen_of_lt (g.text ++ b) b hlt]
      have hwiden := (le_widen (a ++ b) hi).2
      exact .ahead (by omega)
    · have hkeep : ∀ b : List Char, b.head? ≠ some ';' → widen (a ++ b) (bytes a) = bytes a := by
        intro b hb
        rw [widen, if_neg]
        rwa [Text.mem_offsets_append]
      rw [hkeep b (hsemicolon rfl),
        hkeep (g.text ++ b) (g.head?_text_append (by decide) (by decide) (hsemicolon rfl))]
      exact .ahead hhi
  | around hlo hhi =>
    rw [widen_of_le g.text hhi.le]
    exact .around hlo (hhi.trans_le (le_widen (a ++ b) hi).1)
  | behind hlo =>
    rw [widen_of_le g.text (hlo.trans hle)]
    exact .behind hlo

theorem le_of_mem_ranges {t : Tree} {range : Nat × Nat} (h : range ∈ t.moduleStatements 0) :
    range.1 ≤ range.2 := by
  obtain ⟨way, u, -, -, -, hhi⟩ := hasModuleStatement_of_mem h
  omega

/-- **What is erased from a script with a gap** is what is erased without it, moved, and the gap
if it is a comment. -/
theorem regionsMoved_allRegions {g : Gap} {a b : List Char} {t t' : Tree}
    (h : t.Spaced g (bytes a) t')
    (hsemicolon : b.head? = some ';' → ∀ range ∈ t.moduleStatements 0, range.2 ≠ bytes a) :
    RegionsMoved (bytes a) (bytes g.text) (allRegions (a ++ b) t)
        (allRegions (a ++ (g.text ++ b)) t') ∧
      (g.kind = .blockComment → ⟨bytes a, bytes a + bytes g.text, .blank⟩ ∈
        allRegions (a ++ (g.text ++ b)) t') := by
  obtain ⟨hcomments, hgap⟩ := h.regionsMoved
  refine ⟨hcomments.append ?_, fun hkind => List.mem_append_left _ (hgap hkind)⟩
  have hranges := h.moduleStatements 0
  rw [Nat.zero_add] at hranges
  have hle : ∀ range ∈ t.moduleStatements 0, range.1 ≤ range.2 := fun _ hr => le_of_mem_ranges hr
  generalize t.moduleStatements 0 = ranges at hranges hle hsemicolon
  generalize t'.moduleStatements 0 = ranges' at hranges
  induction hranges with
  | nil => exact .nil
  | cons hmoved _ ih =>
    obtain ⟨hrange, hranges⟩ := List.forall_mem_cons.1 hle
    have hapart := moved_widen hrange (fun hend hhead => hsemicolon hhead _ List.mem_cons_self hend)
      hmoved
    exact .cons hapart rfl (fun _ _ => rfl)
      (ih hranges fun hhead r hr => hsemicolon hhead r (List.mem_cons_of_mem _ hr))

/-- **A text is read alike with a gap in it**: the tree has the gap and is otherwise the same. -/
structure ReadsAlike (dialect : Dialect) (g : Gap) (a b : List Char) where
  tree : Tree
  spacedTree : Tree
  read_eq : read dialect (a ++ b) = .ok tree
  read_spaced : read dialect (a ++ (g.text ++ b)) = .ok spacedTree
  spaced : tree.Spaced g (bytes a) spacedTree

namespace ReadsAlike

variable {dialect : Dialect} {g : Gap} {a b : List Char} (r : ReadsAlike dialect g a b)

/-- What stripping leaves of the text before the gap. -/
def strippedBefore : List Char :=
  eraseBy (deciding (allRegions (a ++ b) r.tree)) 0 a

/-- What stripping leaves of the text behind the gap. -/
def strippedBehind : List Char :=
  eraseBy (deciding (allRegions (a ++ b) r.tree)) (bytes a) b

/-- A script with a gap begins with no byte order mark if it does not without it. -/
theorem head?_spaced (hmark : (a ++ b).head? ≠ some '\ufeff') :
    (a ++ (g.text ++ b)).head? ≠ some '\ufeff' := by
  cases a with
  | nil => exact g.head?_text_append (by decide) (by decide) hmark
  | cons c a => exact hmark

theorem strip_eq (hmark : (a ++ b).head? ≠ some '\ufeff') :
    strip dialect (a ++ b) = .ok (r.strippedBefore ++ r.strippedBehind) := by
  rw [Script.strip_eq hmark r.read_eq, Text.eraseBy_append, Nat.zero_add]
  rfl

/-- **Stripping a script with a gap** leaves what it left without it, and spaces for the gap. -/
theorem strip_spaced (hmark : (a ++ b).head? ≠ some '\ufeff')
    (hsemicolon : b.head? = some ';' → ∀ range ∈ r.tree.moduleStatements 0, range.2 ≠ bytes a) :
    strip dialect (a ++ (g.text ++ b)) =
      .ok (r.strippedBefore ++ (g.blanked.text ++ r.strippedBehind)) := by
  obtain ⟨hmoved, hgap⟩ := regionsMoved_allRegions r.spaced hsemicolon
  rw [Script.strip_eq (head?_spaced hmark) r.read_spaced, eraseBy_gap hmoved hgap]
  rfl

end ReadsAlike

end Script

end Untranslated
