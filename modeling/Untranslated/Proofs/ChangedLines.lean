import Untranslated.Diff
import Untranslated.Proofs.NormalPaths

/-!
# Changed lines as a map

What a diff adds is a map from paths to sets of line numbers, kept in ascending order. Two
questions say all of it: which paths it knows, and which lines of a path.

* `ext`: canonical maps that answer both questions alike are equal.
* `has_updateIn`, `holds_updateIn`: what changing one entry does to the answers.
* `get?_eq_some_iff`: what is found under a path.
* `has_union`, `holds_union`: the union by paths, where paths without lines stay.
-/

namespace Untranslated

theorem mem_insertLine {m n : Nat} {lines : List Nat} :
    m ∈ insertLine n lines ↔ m = n ∨ m ∈ lines := by
  induction lines with
  | nil => simp [insertLine]
  | cons l lines ih =>
    unfold insertLine
    split_ifs with hlt heq
    · simp
    · simp [heq]
    · simp only [List.mem_cons, ih]
      tauto

theorem pairwise_insertLine {n : Nat} {lines : List Nat} (h : lines.Pairwise (· < ·)) :
    (insertLine n lines).Pairwise (· < ·) := by
  induction lines with
  | nil => simp [insertLine]
  | cons l lines ih =>
    obtain ⟨hl, hlines⟩ := List.pairwise_cons.1 h
    unfold insertLine
    split_ifs with hlt heq
    · refine List.pairwise_cons.2 ⟨fun m hm => ?_, h⟩
      rcases List.mem_cons.1 hm with rfl | hm
      · exact hlt
      · exact hlt.trans (hl m hm)
    · exact h
    · refine List.pairwise_cons.2 ⟨fun m hm => ?_, ih hlines⟩
      rcases mem_insertLine.1 hm with rfl | hm
      · omega
      · exact hl m hm

namespace ChangedLines

open Untranslated.Path (IsNormal order order_lt_trans order_gt_iff)

/-- The path is among the changed ones, perhaps without lines. -/
def Has (c : ChangedLines) (path : List Char) : Prop :=
  ∃ lines, (path, lines) ∈ c.files

/-- The line of the path was added. -/
def Holds (c : ChangedLines) (path : List Char) (n : Nat) : Prop :=
  ∃ lines, (path, lines) ∈ c.files ∧ n ∈ lines

theorem not_has_nil (q : List Char) : ¬ Has {} q := by
  simp [Has]

theorem not_holds_nil (q : List Char) (n : Nat) : ¬ Holds {} q n := by
  simp [Holds]

theorem has_cons {p : List Char} {lines : List Nat} {files : List (List Char × List Nat)}
    (q : List Char) : Has ⟨(p, lines) :: files⟩ q ↔ q = p ∨ Has ⟨files⟩ q := by
  simp [Has, exists_or]

theorem holds_cons {p : List Char} {lines : List Nat} {files : List (List Char × List Nat)}
    (q : List Char) (n : Nat) :
    Holds ⟨(p, lines) :: files⟩ q n ↔ (q = p ∧ n ∈ lines) ∨ Holds ⟨files⟩ q n := by
  simp [Holds, or_and_right, exists_or, and_assoc]

/-- Normal paths in ascending order, the lines of each in ascending order. -/
structure Canonical (files : List (List Char × List Nat)) : Prop where
  normal : ∀ f ∈ files, IsNormal f.1
  ascending : files.Pairwise fun f g => order f.1 g.1 = .lt
  linesAscending : ∀ f ∈ files, f.2.Pairwise (· < ·)

theorem canonical_nil : Canonical [] :=
  ⟨by simp, by simp, by simp⟩

theorem Canonical.tail {f : List Char × List Nat} {files : List (List Char × List Nat)}
    (h : Canonical (f :: files)) : Canonical files :=
  ⟨fun g hg => h.normal g (List.mem_cons_of_mem _ hg), (List.pairwise_cons.1 h.ascending).2,
    fun g hg => h.linesAscending g (List.mem_cons_of_mem _ hg)⟩

/-! ### Changing an entry -/

variable {path : List Char} {f : List Nat → List Nat} {files : List (List Char × List Nat)}

/-- An entry after a change is one from before, or that of the path. -/
theorem mem_updateIn (hpath : IsNormal path) (hfiles : ∀ g ∈ files, IsNormal g.1)
    {g : List Char × List Nat} (hg : g ∈ updateIn path f files) :
    g ∈ files ∨ (g.1 = path ∧ (g.2 = f [] ∨ ∃ lines, (path, lines) ∈ files ∧ g.2 = f lines)) := by
  induction files with
  | nil => simp_all [updateIn]
  | cons e files ih =>
    obtain ⟨q, ls⟩ := e
    have hq : IsNormal q := hfiles (q, ls) (by simp)
    unfold updateIn at hg
    split at hg
    · rcases List.mem_cons.1 hg with rfl | hg
      · exact .inr ⟨rfl, .inl rfl⟩
      · exact .inl hg
    · next heq =>
      obtain rfl := (hpath.order_eq_iff hq).1 heq
      rcases List.mem_cons.1 hg with rfl | hg
      · exact .inr ⟨rfl, .inr ⟨ls, by simp, rfl⟩⟩
      · exact .inl (List.mem_cons_of_mem _ hg)
    · rcases List.mem_cons.1 hg with rfl | hg
      · exact .inl (by simp)
      · rcases ih (fun g hg => hfiles g (List.mem_cons_of_mem _ hg)) hg with
          h | ⟨h, h' | ⟨ms, hm, h'⟩⟩
        · exact .inl (List.mem_cons_of_mem _ h)
        · exact .inr ⟨h, .inl h'⟩
        · exact .inr ⟨h, .inr ⟨ms, List.mem_cons_of_mem _ hm, h'⟩⟩

/-- The paths known after an entry was changed. -/
theorem has_updateIn (hpath : IsNormal path) (hfiles : ∀ g ∈ files, IsNormal g.1)
    (q : List Char) :
    Has ⟨updateIn path f files⟩ q ↔ q = path ∨ Has ⟨files⟩ q := by
  induction files with
  | nil => simp [updateIn, has_cons]
  | cons e files ih =>
    obtain ⟨p, ls⟩ := e
    have hp : IsNormal p := hfiles (p, ls) (by simp)
    have ih := ih fun g hg => hfiles g (List.mem_cons_of_mem _ hg)
    unfold updateIn
    split
    · rw [has_cons]
    · next heq =>
      obtain rfl := (hpath.order_eq_iff hp).1 heq
      rw [has_cons, has_cons, or_self_left]
    · rw [has_cons, has_cons, ih, or_left_comm]

/-- The lines known after lines that answer to `P` were added to an entry. -/
theorem holds_updateIn (hpath : IsNormal path) (hfiles : ∀ g ∈ files, IsNormal g.1)
    {P : Nat → Prop} (hf : ∀ lines n, n ∈ f lines ↔ P n ∨ n ∈ lines) (q : List Char) (n : Nat) :
    Holds ⟨updateIn path f files⟩ q n ↔ (q = path ∧ P n) ∨ Holds ⟨files⟩ q n := by
  induction files with
  | nil => simp [updateIn, holds_cons, hf]
  | cons e files ih =>
    obtain ⟨p, ls⟩ := e
    have hp : IsNormal p := hfiles (p, ls) (by simp)
    have ih := ih fun g hg => hfiles g (List.mem_cons_of_mem _ hg)
    unfold updateIn
    split
    · rw [holds_cons, hf]
      simp
    · next heq =>
      obtain rfl := (hpath.order_eq_iff hp).1 heq
      rw [holds_cons, holds_cons, hf, and_or_left, or_assoc]
    · rw [holds_cons, holds_cons, ih, or_left_comm]

/-- Changing an entry keeps the form of the map. -/
theorem Canonical.updateIn (h : Canonical files) (hpath : IsNormal path)
    (hf : ∀ lines : List Nat, lines.Pairwise (· < ·) → (f lines).Pairwise (· < ·)) :
    Canonical (updateIn path f files) := by
  have hmem := fun g => mem_updateIn (f := f) hpath h.normal (g := g)
  refine ⟨fun g hg => ?_, ?_, fun g hg => ?_⟩
  · rcases hmem g hg with hg | ⟨hg, -⟩
    · exact h.normal g hg
    · rw [hg]; exact hpath
  · clear hmem
    induction files with
    | nil => simp [ChangedLines.updateIn]
    | cons e files ih =>
      obtain ⟨q, ls⟩ := e
      obtain ⟨hfirst, hrest⟩ := List.pairwise_cons.1 h.ascending
      unfold ChangedLines.updateIn
      split
      · next hlt =>
        refine List.pairwise_cons.2 ⟨fun g hg => ?_, h.ascending⟩
        rcases List.mem_cons.1 hg with rfl | hg
        · exact hlt
        · exact order_lt_trans hlt (hfirst g hg)
      · exact List.pairwise_cons.2 ⟨hfirst, hrest⟩
      · next hgt =>
        refine List.pairwise_cons.2 ⟨fun g hg => ?_, ih h.tail⟩
        rcases mem_updateIn hpath h.tail.normal hg with hg | ⟨hg, -⟩
        · exact hfirst g hg
        · rw [hg]; exact order_gt_iff.1 hgt
  · rcases hmem g hg with hg | ⟨-, hg | ⟨ls, hls, hg⟩⟩
    · exact h.linesAscending g hg
    · rw [hg]; exact hf [] (by simp)
    · rw [hg]; exact hf ls (h.linesAscending _ hls)

/-! ### Order -/

theorem order_ne_lt_self (q : List Char) : order q q ≠ .lt := by
  rw [(Path.order_eq_iff q q).2 rfl]
  decide

theorem order_asymm (p q : List Char) (h : order p q = .lt) : ¬order q p = .lt :=
  fun h' => order_ne_lt_self p (order_lt_trans h h')

/-- Lists in the order of an asymmetric relation are equal if they have the same members. -/
theorem eq_of_pairwise_of_mem_iff {α : Type} {r : α → α → Prop} (hr : ∀ a b, r a b → ¬ r b a)
    {l m : List α} (hl : l.Pairwise r) (hm : m.Pairwise r) (h : ∀ a, a ∈ l ↔ a ∈ m) : l = m := by
  have hnodup : ∀ {k : List α}, k.Pairwise r → k.Nodup := by
    intro k hk
    refine hk.imp ?_
    rintro a _ hab rfl
    exact hr a a hab hab
  have hperm : l.Perm m := (List.perm_ext_iff_of_nodup (hnodup hl) (hnodup hm)).2 h
  exact hperm.eq_of_pairwise (fun a b _ _ hab hba => absurd hba (hr a b hab)) hl hm

/-- What is made of the members of two lists in the same order is the same if all members that
something is made of are in both. -/
theorem filterMap_eq_of_pairwise {α β : Type} {r : α → α → Prop} (hr : ∀ a b, r a b → ¬r b a)
    {f : α → Option β} {l m : List α} (hl : l.Pairwise r) (hm : m.Pairwise r)
    (h : ∀ a, (f a).isSome = true → (a ∈ l ↔ a ∈ m)) : l.filterMap f = m.filterMap f := by
  have hfilter : ∀ l : List α, (l.filter fun a => (f a).isSome).filterMap f = l.filterMap f := by
    intro l
    rw [List.filterMap_filter]
    congr 1
    funext a
    cases f a <;> rfl
  rw [← hfilter l, ← hfilter m]
  congr 1
  refine eq_of_pairwise_of_mem_iff hr (hl.filter _) (hm.filter _) fun a => ?_
  simp only [List.mem_filter]
  exact ⟨fun ⟨ha, hs⟩ => ⟨(h a hs).1 ha, hs⟩, fun ⟨ha, hs⟩ => ⟨(h a hs).2 ha, hs⟩⟩

/-- A path has one entry at most. -/
theorem Canonical.lines_unique (h : Canonical files) {q : List Char} {ls ms : List Nat}
    (hls : (q, ls) ∈ files) (hms : (q, ms) ∈ files) : ls = ms := by
  have hne : files.Pairwise fun f g => f.1 ≠ g.1 := by
    refine h.ascending.imp fun hlt heq => ?_
    rw [heq] at hlt
    exact order_ne_lt_self _ hlt
  have hall : ∀ f ∈ files, ∀ g ∈ files, f.1 = g.1 → f.2 = g.2 := by
    intro f hf g hg
    refine List.Pairwise.forall_of_forall_of_flip (R := fun f g => f.1 = g.1 → f.2 = g.2)
      (fun f _ _ => rfl) ?_ ?_ hf hg
    · exact hne.imp fun hfg heq => absurd heq hfg
    · exact hne.imp fun hfg heq => absurd heq.symm hfg
  exact hall _ hls _ hms rfl

/-- An entry says which lines of its path were added. -/
theorem Canonical.mem_lines_iff (h : Canonical files) {q : List Char} {ls : List Nat}
    (hls : (q, ls) ∈ files) (n : Nat) : n ∈ ls ↔ Holds ⟨files⟩ q n := by
  constructor
  · intro hn
    exact ⟨ls, hls, hn⟩
  · rintro ⟨ms, hms, hn⟩
    rw [h.lines_unique hls hms]
    exact hn

/-! ### Finding an entry -/

/-- An entry is found under its path. -/
theorem get?_of_mem {changed : ChangedLines} (h : Canonical changed.files)
    {f : List Char × List Nat} (hf : f ∈ changed.files) : changed.get? f.1 = some f.2 := by
  unfold get?
  cases hfind : changed.files.find? fun g => order f.1 g.1 == .eq with
  | none =>
    have hnone := List.find?_eq_none.1 hfind f hf
    rw [(Path.order_eq_iff f.1 f.1).2 rfl] at hnone
    exact absurd rfl hnone
  | some g =>
    have hg := List.mem_of_find?_eq_some hfind
    have hsame := List.find?_some hfind
    have heq := ((h.normal f hf).order_eq_iff (h.normal g hg)).1 (eq_of_beq hsame)
    have hmem : (f.1, g.2) ∈ changed.files := by
      rw [heq]
      exact hg
    rw [Option.map_some, h.lines_unique hmem hf]

/-- What is found under a normal path is its entry. -/
theorem mem_of_get? {changed : ChangedLines} (h : Canonical changed.files) {p : List Char}
    {lines : List Nat} (hp : IsNormal p) (hlines : changed.get? p = some lines) :
    (p, lines) ∈ changed.files := by
  obtain ⟨f, hfind, rfl⟩ := Option.map_eq_some_iff.1 hlines
  have hf := List.mem_of_find?_eq_some hfind
  have hsame := List.find?_some hfind
  obtain rfl := (hp.order_eq_iff (h.normal f hf)).1 (eq_of_beq hsame)
  exact hf

/-- A normal path is found with the lines of its entry. -/
theorem get?_eq_some_iff {changed : ChangedLines} (h : Canonical changed.files) {p : List Char}
    (hp : IsNormal p) {lines : List Nat} :
    changed.get? p = some lines ↔ (p, lines) ∈ changed.files :=
  ⟨mem_of_get? h hp, fun hmem => get?_of_mem (f := (p, lines)) h hmem⟩

/-! ### Equal maps -/

/-- **Canonical maps that answer alike are equal.** -/
theorem ext {c d : ChangedLines} (hc : Canonical c.files) (hd : Canonical d.files)
    (hhas : ∀ q, c.Has q ↔ d.Has q) (hholds : ∀ q n, c.Holds q n ↔ d.Holds q n) : c = d := by
  have hmem : ∀ {c d : ChangedLines}, Canonical c.files → Canonical d.files →
      (∀ q, c.Has q ↔ d.Has q) → (∀ q n, c.Holds q n ↔ d.Holds q n) →
      ∀ f ∈ c.files, f ∈ d.files := by
    intro c d hc hd hhas hholds f hf
    obtain ⟨ms, hms⟩ := (hhas f.1).1 ⟨f.2, hf⟩
    have hlines : f.2 = ms := by
      refine eq_of_pairwise_of_mem_iff (fun a b h => by omega) (hc.linesAscending f hf)
        (hd.linesAscending _ hms) fun n => ?_
      rw [hc.mem_lines_iff hf, hd.mem_lines_iff hms]
      exact hholds f.1 n
    rw [← hlines] at hms
    exact hms
  obtain ⟨cs⟩ := c
  obtain ⟨ds⟩ := d
  congr 1
  refine eq_of_pairwise_of_mem_iff (fun f g => order_asymm f.1 g.1) hc.ascending hd.ascending
    fun f => ⟨?_, ?_⟩
  · exact hmem hc hd hhas hholds f
  · exact hmem hd hc (fun q => (hhas q).symm) (fun q n => (hholds q n).symm) f

/-! ### Union -/

/-- Line numbers in their places among ascending ones. -/
def insertLines (new lines : List Nat) : List Nat :=
  new.foldl (fun lines n => insertLine n lines) lines

theorem mem_insertLines {m : Nat} {new lines : List Nat} :
    m ∈ insertLines new lines ↔ m ∈ new ∨ m ∈ lines := by
  induction new generalizing lines with
  | nil => simp [insertLines]
  | cons n new ih =>
    have h := @ih (insertLine n lines)
    rw [mem_insertLine] at h
    rw [List.mem_cons, or_assoc, or_left_comm]
    exact h

theorem pairwise_insertLines {new lines : List Nat} (h : lines.Pairwise (· < ·)) :
    (insertLines new lines).Pairwise (· < ·) := by
  induction new generalizing lines with
  | nil => exact h
  | cons n new ih => exact ih (pairwise_insertLine h)

/-- The lines of both, path by path. A path that either knows stays, also without lines. -/
def union (c d : ChangedLines) : ChangedLines :=
  ⟨d.files.foldl (fun files f => updateIn f.1 (insertLines f.2) files) c.files⟩

theorem union_cons (cs ds : List (List Char × List Nat)) (p : List Char) (ls : List Nat) :
    union ⟨cs⟩ ⟨(p, ls) :: ds⟩ = union ⟨updateIn p (insertLines ls) cs⟩ ⟨ds⟩ := rfl

theorem canonical_union {c d : ChangedLines} (hc : Canonical c.files) (hd : Canonical d.files) :
    Canonical (union c d).files := by
  obtain ⟨cs⟩ := c
  obtain ⟨ds⟩ := d
  induction ds generalizing cs with
  | nil => exact hc
  | cons e ds ih =>
    obtain ⟨p, ls⟩ := e
    rw [union_cons]
    exact ih _ (hc.updateIn (hd.normal (p, ls) (by simp)) fun _ => pairwise_insertLines) hd.tail

theorem has_union {c d : ChangedLines} (hc : Canonical c.files) (hd : Canonical d.files)
    (q : List Char) : (union c d).Has q ↔ c.Has q ∨ d.Has q := by
  obtain ⟨cs⟩ := c
  obtain ⟨ds⟩ := d
  induction ds generalizing cs with
  | nil => simp [union, not_has_nil]
  | cons e ds ih =>
    obtain ⟨p, ls⟩ := e
    have hp : IsNormal p := hd.normal (p, ls) (by simp)
    rw [union_cons, ih _ (hc.updateIn hp fun _ => pairwise_insertLines) hd.tail,
      has_updateIn hp hc.normal, has_cons, or_assoc, or_left_comm]

theorem holds_union {c d : ChangedLines} (hc : Canonical c.files) (hd : Canonical d.files)
    (q : List Char) (n : Nat) : (union c d).Holds q n ↔ c.Holds q n ∨ d.Holds q n := by
  obtain ⟨cs⟩ := c
  obtain ⟨ds⟩ := d
  induction ds generalizing cs with
  | nil => simp [union, not_holds_nil]
  | cons e ds ih =>
    obtain ⟨p, ls⟩ := e
    have hp : IsNormal p := hd.normal (p, ls) (by simp)
    rw [union_cons, ih _ (hc.updateIn hp fun _ => pairwise_insertLines) hd.tail,
      holds_updateIn hp hc.normal (fun _ _ => mem_insertLines), holds_cons, or_assoc, or_left_comm]

end ChangedLines

end Untranslated
