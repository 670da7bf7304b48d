import Untranslated.FileTree
import Untranslated.Proofs.RootedPaths

/-!
# Walking a tree of files

The files below a place are listed directory by directory, the entries of each by name. In a tree
whose directories have each name once (`WellFormed`) the list is in the order of paths, and it
holds exactly the files of the tree that are below the place.

* `pairwise_filesBelow`: the files are listed in the order of paths.
* `mem_filesBelow`, `mem_filesBelow_normalize`: what is listed.
-/

namespace Untranslated

open Untranslated.Path (IsName order rooted)

namespace FileTree

/-- The names in each directory are names, and none is there twice. -/
inductive WellFormed : FileTree → Prop
  | file (bytes : List UInt8) : WellFormed (file bytes)
  | directory {entries : List (List Char × FileTree)} (nodup : (entries.map Prod.fst).Nodup)
      (names : ∀ e ∈ entries, IsName e.1) (trees : ∀ e ∈ entries, WellFormed e.2) :
      WellFormed (directory entries)

/-! ### Entries -/

section Entries

variable {entries : List (List Char × FileTree)}

theorem mem_of_child? {name : List Char} {t : FileTree} (h : child? name entries = some t) :
    (name, t) ∈ entries := by
  obtain ⟨e, he, rfl⟩ := Option.map_eq_some_iff.1 h
  have hname := List.find?_some he
  obtain rfl : e.1 = name := eq_of_beq hname
  exact List.mem_of_find?_eq_some he

/-- An entry is found under its name. -/
theorem child?_of_mem (hnodup : (entries.map Prod.fst).Nodup) {e : List Char × FileTree}
    (h : e ∈ entries) : child? e.1 entries = some e.2 := by
  induction entries with
  | nil => exact absurd h List.not_mem_nil
  | cons d entries ih =>
    obtain ⟨hd, hrest⟩ := List.nodup_cons.1 hnodup
    unfold child? at ih ⊢
    rw [List.find?_cons]
    rcases List.mem_cons.1 h with rfl | h
    · simp
    · have hne : d.1 ≠ e.1 := fun heq => hd (heq ▸ List.mem_map_of_mem h)
      rw [beq_eq_false_iff_ne.2 hne]
      exact ih hrest h

theorem filesOf_eq (p : List Char) (entries : List (List Char × FileTree)) :
    filesOf p entries = entries.map fun e => (e.1, files (entryPath p e.1) e.2) := by
  induction entries with
  | nil => rfl
  | cons e entries ih => rw [filesOf, ih, List.map_cons, filesOfEntry]

end Entries

/-! ### Paths of entries -/

section Paths

variable {names : List (List Char)}

theorem names_rooted (h : ∀ s ∈ names, IsName s) : FileTree.names (rooted names) = names := by
  rw [FileTree.names, Path.components_rooted h]
  simp [List.filterMap_map]

/-- A path with one name more; the root has its slash already. -/
theorem rooted_append (names : List (List Char)) (name : List Char) :
    rooted (names ++ [name]) =
      if names = [] then '/' :: name else rooted names ++ '/' :: name := by
  have hrender : ∀ names : List (List Char), names ≠ [] →
      Path.render ((names ++ [name]).map .name) =
        Path.render (names.map .name) ++ '/' :: name := by
    intro names h
    induction names with
    | nil => exact absurd rfl h
    | cons s names ih =>
      cases names with
      | nil => rfl
      | cons t names =>
        have ih := ih (List.cons_ne_nil t names)
        simp only [List.cons_append, List.map_cons, Path.render] at ih ⊢
        rw [ih]
        simp
  split_ifs with h
  · rw [h]
    rfl
  · exact congrArg ('/' :: ·) (hrender names h)

/-- Only the root ends in a slash. -/
theorem getLast?_rooted (h : ∀ s ∈ names, IsName s) (hnames : names ≠ []) :
    (rooted names).getLast? ≠ some '/' := by
  obtain ⟨front, last, rfl⟩ := (List.eq_nil_or_concat names).resolve_left hnames
  rw [List.concat_eq_append] at h ⊢
  have hlast : IsName last := h last (by simp)
  obtain ⟨lead, hlead⟩ : ∃ lead, rooted (front ++ [last]) = lead ++ last := by
    rw [rooted_append]
    split_ifs
    · exact ⟨['/'], rfl⟩
    · exact ⟨rooted front ++ ['/'], by simp⟩
  rw [hlead, List.getLast?_append_of_ne_nil _ hlast.ne_nil]
  exact fun hslash => hlast.slash_notMem (List.mem_of_getLast? hslash)

/-- The path of an entry of a directory has one name more. -/
theorem entryPath_rooted (h : ∀ s ∈ names, IsName s) (name : List Char) :
    entryPath (rooted names) name = rooted (names ++ [name]) := by
  rw [entryPath, rooted_append]
  by_cases hnames : names = []
  · rw [if_pos hnames, hnames]
    rfl
  · rw [if_neg hnames, if_neg (by simpa using getLast?_rooted h hnames)]

end Paths

/-! ### Files below a place -/

section Files

variable {t : FileTree} {names : List (List Char)}

theorem forall_isName_append (h : ∀ s ∈ names, IsName s) {name : List Char} (hname : IsName name) :
    ∀ s ∈ names ++ [name], IsName s :=
  List.forall_mem_append.2 ⟨h, List.forall_mem_singleton.2 hname⟩

/-- The files of a directory are those of its entries. -/
theorem mem_files_directory (h : ∀ s ∈ names, IsName s) {entries : List (List Char × FileTree)}
    {p : List Char} : p ∈ files (rooted names) (directory entries) ↔
      ∃ e ∈ entries, p ∈ files (rooted (names ++ [e.1])) e.2 := by
  rw [files, List.mem_flatMap]
  simp only [List.mem_mergeSort, filesOf_eq, List.mem_map, entryPath_rooted h]
  constructor
  · rintro ⟨_, ⟨e, he, rfl⟩, hp⟩
    exact ⟨e, he, hp⟩
  · rintro ⟨e, he, hp⟩
    exact ⟨_, ⟨e, he, rfl⟩, hp⟩

/-- **The files listed from a place on are those that names lead to from there.** -/
theorem mem_files (ht : t.WellFormed) (h : ∀ s ∈ names, IsName s) {p : List Char} :
    p ∈ files (rooted names) t ↔ ∃ more bytes, (∀ s ∈ more, IsName s) ∧
      find more t = .ok (file bytes) ∧ p = rooted (names ++ more) := by
  induction ht generalizing names with
  | file bytes =>
    rw [files, List.mem_singleton]
    constructor
    · rintro rfl
      exact ⟨[], bytes, by simp, rfl, by rw [List.append_nil]⟩
    · rintro ⟨more, bytes, -, hfind, rfl⟩
      cases more with
      | nil => rw [List.append_nil]
      | cons s more => cases hfind
  | @directory entries nodup hnames _ ih =>
    rw [mem_files_directory h]
    have hentry := fun e he => forall_isName_append h (hnames e he)
    constructor
    · rintro ⟨e, he, hp⟩
      obtain ⟨more, bytes, hmore, hfind, rfl⟩ := (ih e he (hentry e he)).1 hp
      refine ⟨e.1 :: more, bytes, List.forall_mem_cons.2 ⟨hnames e he, hmore⟩, ?_, ?_⟩
      · rw [find, child?_of_mem nodup he]
        exact hfind
      · rw [List.append_assoc, List.singleton_append]
    · rintro ⟨more, bytes, hmore, hfind, rfl⟩
      cases more with
      | nil => cases hfind
      | cons name more =>
        rw [find] at hfind
        cases hchild : child? name entries with
        | none => rw [hchild] at hfind; cases hfind
        | some u =>
          rw [hchild] at hfind
          have he := mem_of_child? hchild
          refine ⟨(name, u), he, (ih _ he (hentry _ he)).2 ⟨more, bytes, ?_, hfind, ?_⟩⟩
          · exact (List.forall_mem_cons.1 hmore).2
          · rw [List.append_assoc, List.singleton_append]

theorem nameBefore_trans {a b c : List Char} (h : nameBefore a b = true)
    (h' : nameBefore b c = true) : nameBefore a c = true :=
  Std.TransCmp.isLE_trans h h'

theorem nameBefore_total (a b : List Char) : (nameBefore a b || nameBefore b a) = true := by
  unfold nameBefore
  rw [Std.OrientedOrd.eq_swap (a := b.map Char.toNat) (b := a.map Char.toNat)]
  cases compare (a.map Char.toNat) (b.map Char.toNat) <;> rfl

/-- Of different names one comes before the other. -/
theorem compare_of_nameBefore {a b : List Char} (h : nameBefore a b = true) (hne : a ≠ b) :
    compare (a.map Char.toNat) (b.map Char.toNat) = .lt := by
  cases hcompare : compare (a.map Char.toNat) (b.map Char.toNat) with
  | lt => rfl
  | eq =>
    have heq := Std.LawfulEqOrd.eq_of_compare hcompare
    exact absurd (List.map_injective_iff.2 (fun c d hcd => Char.toNat_inj.1 hcd) heq) hne
  | gt => rw [nameBefore, hcompare] at h; cases h

/-- **Files are listed in the order of their paths.** -/
theorem pairwise_files (ht : t.WellFormed) (h : ∀ s ∈ names, IsName s) :
    (files (rooted names) t).Pairwise fun p q => order p q = .lt := by
  induction ht generalizing names with
  | file bytes => exact List.pairwise_singleton _ _
  | @directory entries nodup hnames htrees ih =>
    have hentry := fun e he => forall_isName_append h (hnames e he)
    let listed := entries.map fun e => (e.1, files (rooted (names ++ [e.1])) e.2)
    have hlisted : filesOf (rooted names) entries = listed := by
      rw [filesOf_eq]
      simp only [entryPath_rooted h, listed]
    rw [files, hlisted, List.pairwise_flatMap]
    constructor
    · intro f hf
      obtain ⟨e, he, rfl⟩ := List.mem_map.1 (List.mem_mergeSort.1 hf)
      exact ih e he (hentry e he)
    · have hsorted : (listed.mergeSort fun a b => nameBefore a.1 b.1).Pairwise
          fun a b => nameBefore a.1 b.1 = true :=
        List.pairwise_mergeSort (fun a b c => @nameBefore_trans a.1 b.1 c.1)
          (fun a b => nameBefore_total a.1 b.1) listed
      have hnodup : (listed.mergeSort fun a b => nameBefore a.1 b.1).Pairwise
          fun a b => a.1 ≠ b.1 := by
        refine List.pairwise_map.1 (((List.mergeSort_perm listed _).map Prod.fst).nodup_iff.2 ?_)
        rw [List.map_map]
        exact nodup
      refine (hsorted.and hnodup).imp_of_mem fun ha hb hab p hp q hq => ?_
      obtain ⟨d, hd, rfl⟩ := List.mem_map.1 (List.mem_mergeSort.1 ha)
      obtain ⟨e, he, rfl⟩ := List.mem_map.1 (List.mem_mergeSort.1 hb)
      obtain ⟨ds, -, hds, -, rfl⟩ := (mem_files (htrees d hd) (hentry d hd)).1 hp
      obtain ⟨es, -, hes, -, rfl⟩ := (mem_files (htrees e he) (hentry e he)).1 hq
      have hcompare := compare_of_nameBefore hab.1 hab.2
      have hall : ∀ {more : List (List Char)} {e : List Char × FileTree}, e ∈ entries →
          (∀ s ∈ more, IsName s) → ∀ s ∈ names ++ e.1 :: more, IsName s := by
        intro more e he hmore
        exact List.forall_mem_append.2 ⟨h, List.forall_mem_cons.2 ⟨hnames e he, hmore⟩⟩
      rw [List.append_assoc, List.append_assoc, List.singleton_append, List.singleton_append]
      exact Path.order_rooted (hall hd hds) (hall he hes) hcompare

/-- Trees in a well-formed tree are well-formed. -/
theorem WellFormed.of_find (h : t.WellFormed) {u : FileTree} (hfind : find names t = .ok u) :
    u.WellFormed := by
  induction names generalizing t with
  | nil => exact Except.ok.inj hfind ▸ h
  | cons name names ih =>
    cases h with
    | file => cases hfind
    | @directory entries nodup hnames htrees =>
      rw [find] at hfind
      cases hchild : child? name entries with
      | none => rw [hchild] at hfind; cases hfind
      | some v =>
        rw [hchild] at hfind
        exact ih (htrees _ (mem_of_child? hchild)) hfind

/-- What names lead to in steps. -/
theorem find_append (more : List (List Char)) :
    find (names ++ more) t = (find names t).bind (find more) := by
  induction names generalizing t with
  | nil => rfl
  | cons name names ih =>
    cases t with
    | file => rfl
    | directory entries =>
      rw [List.cons_append, find, find]
      cases child? name entries with
      | none => rfl
      | some u => exact ih

/-- A file stands at a path if its names lead to one. -/
theorem isFile_rooted (h : ∀ s ∈ names, IsName s) :
    isFile t (rooted names) = true ↔ ∃ bytes, find names t = .ok (file bytes) := by
  rw [isFile, at?, names_rooted h]
  cases hfind : find names t with
  | error => simp [Except.toOption]
  | ok u => cases u <;> simp [Except.toOption]

/-- What is listed below a place: nothing, unless a directory stands there. -/
theorem filesBelow_rooted (h : ∀ s ∈ names, IsName s) : filesBelow t (rooted names) =
    match find names t with
    | .ok (directory entries) => files (rooted names) (directory entries)
    | _ => [] := by
  rw [filesBelow, at?, names_rooted h]
  cases find names t with
  | error => rfl
  | ok u => cases u <;> rfl

/-- **The files listed below a place are all files of the tree whose paths go on from there.** -/
theorem mem_filesBelow (ht : t.WellFormed) (h : ∀ s ∈ names, IsName s) {p : List Char} :
    p ∈ filesBelow t (rooted names) ↔ ∃ more, more ≠ [] ∧ (∀ s ∈ more, IsName s) ∧
      p = rooted (names ++ more) ∧ isFile t p = true := by
  have hfile : ∀ {more : List (List Char)}, (∀ s ∈ more, IsName s) →
      (isFile t (rooted (names ++ more)) = true ↔
        ∃ bytes, (find names t).bind (find more) = .ok (file bytes)) := by
    intro more hmore
    rw [isFile_rooted (List.forall_mem_append.2 ⟨h, hmore⟩), find_append]
  rw [filesBelow_rooted h]
  cases hfind : find names t with
  | error e =>
    simp only [List.not_mem_nil, false_iff]
    rintro ⟨more, -, hmore, rfl, hp⟩
    rw [hfile hmore, hfind] at hp
    obtain ⟨bytes, hbytes⟩ := hp
    cases hbytes
  | ok u =>
    have hu := ht.of_find hfind
    cases u with
    | file =>
      simp only [List.not_mem_nil, false_iff]
      rintro ⟨more, hne, hmore, rfl, hp⟩
      rw [hfile hmore, hfind] at hp
      obtain ⟨bytes, hbytes⟩ := hp
      cases more with
      | nil => exact hne rfl
      | cons => cases hbytes
    | directory entries =>
      dsimp only
      rw [mem_files hu h]
      constructor
      · rintro ⟨more, bytes, hmore, hbytes, rfl⟩
        refine ⟨more, ?_, hmore, rfl, (hfile hmore).2 ⟨bytes, by rw [hfind]; exact hbytes⟩⟩
        rintro rfl
        cases hbytes
      · rintro ⟨more, -, hmore, rfl, hp⟩
        rw [hfile hmore, hfind] at hp
        obtain ⟨bytes, hbytes⟩ := hp
        exact ⟨more, bytes, hmore, hbytes, rfl⟩

/-- **They are listed in the order of their paths.** -/
theorem pairwise_filesBelow (ht : t.WellFormed) (h : ∀ s ∈ names, IsName s) :
    (filesBelow t (rooted names)).Pairwise fun p q => order p q = .lt := by
  rw [filesBelow_rooted h]
  cases hfind : find names t with
  | error => exact List.Pairwise.nil
  | ok u =>
    cases u with
    | file => exact List.Pairwise.nil
    | directory entries => exact pairwise_files (ht.of_find hfind) h

end Files

/-! ### Normalized paths -/

/-- What can be read is a file. -/
theorem isFile_of_read {t : FileTree} {p source : List Char}
    (h : t.read p = .ok source) : t.isFile p = true := by
  unfold read at h
  unfold isFile at?
  cases hfind : find (names p) t with
  | error => rw [hfind] at h; cases h
  | ok u =>
    cases u with
    | file => rfl
    | directory => rw [hfind] at h; cases h

/-- Of normalized paths those of files below a directory are listed below it. -/
theorem mem_filesBelow_normalize {t : FileTree} (ht : t.WellFormed) {cwd : List Char}
    (hcwd : Path.isAbsolute cwd = true) (root p : List Char) :
    Path.normalize cwd p ∈ t.filesBelow (Path.normalize cwd root) ↔
      Path.isBelow (Path.normalize cwd p) (Path.normalize cwd root) = true ∧
        t.isFile (Path.normalize cwd p) = true := by
  obtain ⟨base, hbase, hroot⟩ := Path.exists_rooted hcwd root
  obtain ⟨names, hnames, hp⟩ := Path.exists_rooted hcwd p
  rw [hroot, hp, mem_filesBelow ht hbase, Path.isBelow_iff hbase hnames]
  constructor
  · rintro ⟨more, hne, hmore, heq, hfile⟩
    exact ⟨⟨more, hne, Path.rooted_inj hnames (List.forall_mem_append.2 ⟨hbase, hmore⟩) heq⟩, hfile⟩
  · rintro ⟨⟨more, hne, rfl⟩, hfile⟩
    exact ⟨more, hne, (List.forall_mem_append.1 hnames).2, rfl, hfile⟩

/-- What is listed below a normalized path are normal paths below it. -/
theorem isNormal_of_mem_filesBelow {t : FileTree} (ht : t.WellFormed) {cwd : List Char}
    (hcwd : Path.isAbsolute cwd = true) {root p : List Char}
    (h : p ∈ t.filesBelow (Path.normalize cwd root)) :
    Path.IsNormal p ∧ Path.isBelow p (Path.normalize cwd root) = true := by
  obtain ⟨base, hbase, hroot⟩ := Path.exists_rooted hcwd root
  rw [hroot] at h ⊢
  obtain ⟨more, hne, hmore, rfl, -⟩ := (mem_filesBelow ht hbase).1 h
  have hall := List.forall_mem_append.2 ⟨hbase, hmore⟩
  refine ⟨?_, (Path.isBelow_iff hbase hall).2 ⟨more, hne, rfl⟩⟩
  rw [Path.IsNormal, Path.components_rooted hall]
  rfl

end FileTree

end Untranslated
