import Untranslated.Proofs.FileWalk
import Untranslated.Proofs.PathSpellings

/-!
# The order of a walk

Files below a directory are listed with the entries of each directory by name, and a diff has its
files in the order of their paths. Both are the order of names as bytes: UTF-8 keeps the order of
characters (`utf8_lt`), and paths are compared name by name (`utf8Names_lt`).

* `listsAccepted`: a walk lists the files that are looked at, each once, in that order.
-/

namespace Untranslated

open Untranslated.Path (IsName Component isBelow normalize order rooted)

/-! ### Names as bytes -/

/-- The bytes of a text. -/
def utf8 (s : List Char) : List UInt8 :=
  s.flatMap String.utf8EncodeChar

/-- The names in a path, as bytes. Paths are compared name by name, and names byte by byte. -/
def utf8Names (p : List Char) : List (List UInt8) :=
  (FileTree.names p).map utf8

/-- The bytes of a character come before those of a later one, whatever follows them. -/
theorem utf8EncodeChar_lt {c d : Char} (h : c.toNat < d.toNat) (x y : List UInt8) :
    String.utf8EncodeChar c ++ x < String.utf8EncodeChar d ++ y := by
  have hd : d.val.toNat < 0x110000 := by
    have hvalid := d.valid
    unfold UInt32.isValidChar Nat.isValidChar at hvalid
    omega
  have hcd : c.val.toNat < d.val.toNat := h
  unfold String.utf8EncodeChar
  dsimp only
  generalize c.val.toNat = n at hcd
  generalize d.val.toNat = m at hcd hd
  -- Each digit to the base 64 from the digits before it.
  have hdigits : ∀ k : Nat, k / 4096 = k / 64 / 64 ∧ k / 262144 = k / 64 / 64 / 64 := by
    intro k
    omega
  simp only [hdigits]
  -- The first byte grows with the number of bytes, so only equal numbers need a second look.
  split_ifs <;>
    simp (disch := omega) only [List.cons_append, List.nil_append, List.cons_lt_cons_iff,
      UInt8.lt_iff_toNat_lt, ← UInt8.toNat_inj, UInt8.toNat_ofNat', Nat.mod_eq_of_lt] <;>
    omega

theorem utf8EncodeChar_ne_nil (c : Char) : String.utf8EncodeChar c ≠ [] := by
  unfold String.utf8EncodeChar
  dsimp only
  split_ifs <;> exact List.cons_ne_nil _ _

/-- **The order of characters is that of bytes.** -/
theorem utf8_lt {a b : List Char} (h : compare (a.map Char.toNat) (b.map Char.toNat) = .lt) :
    utf8 a < utf8 b := by
  induction a generalizing b with
  | nil =>
    cases b with
    | nil => exact absurd h (by decide)
    | cons d b =>
      have hne : utf8 (d :: b) ≠ [] := List.append_ne_nil_of_left_ne_nil (utf8EncodeChar_ne_nil d) _
      obtain ⟨x, xs, hx⟩ := List.exists_cons_of_ne_nil hne
      rw [hx]
      exact List.nil_lt_cons x xs
  | cons c a ih =>
    cases b with
    | nil => cases h
    | cons d b =>
      rw [List.map_cons, List.map_cons, List.compare_cons_cons, Ordering.then_eq_lt] at h
      unfold utf8 at ih ⊢
      rw [List.flatMap_cons, List.flatMap_cons]
      rcases h with hcd | ⟨hcd, hab⟩
      · exact utf8EncodeChar_lt (Nat.compare_eq_lt.1 hcd) _ _
      · obtain rfl : c = d := Char.toNat_inj.1 (Nat.compare_eq_eq.1 hcd)
        exact List.append_left_lt (ih hab)

/-- Names are ordered by their characters. -/
theorem compare_key_name (a b : List Char) :
    compare (Component.name a).key (Component.name b).key =
      compare (a.map Char.toNat) (b.map Char.toNat) := by
  rw [Component.key, Component.key, List.compare_cons_cons, Std.ReflOrd.compare_self,
    Ordering.eq_then]

/-- **Paths from the root on come in the order of their names as bytes.** -/
theorem utf8Names_lt {names names' : List (List Char)} (h : ∀ s ∈ names, IsName s)
    (h' : ∀ s ∈ names', IsName s) (horder : order (rooted names) (rooted names') = .lt) :
    utf8Names (rooted names) < utf8Names (rooted names') := by
  rw [utf8Names, utf8Names, FileTree.names_rooted h, FileTree.names_rooted h']
  rw [order, Path.components_rooted h, Path.components_rooted h', List.map_cons, List.map_cons,
    List.compare_cons_cons, Std.ReflOrd.compare_self, Ordering.eq_then] at horder
  clear h h'
  induction names generalizing names' with
  | nil =>
    cases names' with
    | nil => exact absurd horder (by decide)
    | cons s names' => exact List.nil_lt_cons _ _
  | cons s names ih =>
    cases names' with
    | nil => cases horder
    | cons s' names' =>
      simp only [List.map_cons, List.compare_cons_cons, Ordering.then_eq_lt] at horder
      rw [List.map_cons, List.map_cons, List.cons_lt_cons_iff]
      rcases horder with hs | ⟨hs, hrest⟩
      · rw [compare_key_name] at hs
        exact .inl (utf8_lt hs)
      · have hkey := Path.Component.key_injective (Std.LawfulEqOrd.eq_of_compare hs)
        obtain rfl := Component.name.inj hkey
        exact .inr ⟨rfl, ih hrest⟩

/-! ### Walks -/

/-- The list holds the files below a place that are looked at, in the order in which a diff has
its files. Paths are normal as seen from `base`. -/
structure ListsAccepted (t : FileTree) (base place : List Char) (f : TargetFilter)
    (listed : List (List Char)) : Prop where
  mem : ∀ p, p ∈ listed ↔ normalize base p = p ∧ isBelow p place = true ∧ t.isFile p = true ∧
    f.accepts p = true
  nodup : listed.Nodup
  ascending : listed.Pairwise fun p q => utf8Names p < utf8Names q
  /-- The files of a diff that are listed are listed in the order in which the diff has them. -/
  diffOrder : ∀ diff, listed.filter (fun p => ((changedLines base diff).get? p).isSome) =
    ((changedLines base diff).files.map Prod.fst).filter (· ∈ listed)
  /-- A place that is missing, or that is a file, has no files below it. -/
  elsewhere : t.isDirectory place = false → listed = []

section Walk

variable {t : FileTree} {base : List Char}

/-- What is listed below a normal path is normal. -/
theorem normalize_of_mem_filesBelow (ht : t.WellFormed) (hbase : Path.isAbsolute base = true)
    {root p : List Char} (h : p ∈ t.filesBelow (normalize base root)) : normalize base p = p := by
  obtain ⟨names, hnames, hroot⟩ := Path.exists_rooted hbase root
  rw [hroot] at h
  obtain ⟨more, -, hmore, rfl, -⟩ := (FileTree.mem_filesBelow ht hnames).1 h
  exact Path.normalize_rooted hbase (List.forall_mem_append.2 ⟨hnames, hmore⟩)

theorem filesBelow_of_isDirectory_eq_false {p : List Char} (h : t.isDirectory p = false) :
    t.filesBelow p = [] := by
  unfold FileTree.isDirectory at h
  unfold FileTree.filesBelow
  split
  · next hplace => rw [hplace] at h; cases h
  · rfl

/-- Normal paths in the order of paths are in the order of their names as bytes. -/
theorem utf8Names_lt_of_order (hbase : Path.isAbsolute base = true) {p q : List Char}
    (hp : normalize base p = p) (hq : normalize base q = q) (h : order p q = .lt) :
    utf8Names p < utf8Names q := by
  obtain ⟨names, hnames, hrooted⟩ := Path.exists_rooted hbase p
  obtain ⟨names', hnames', hrooted'⟩ := Path.exists_rooted hbase q
  rw [hp] at hrooted
  rw [hq] at hrooted'
  rw [hrooted, hrooted'] at h ⊢
  exact utf8Names_lt hnames hnames' h

/-- A path is found in a diff just if it is one of its files. -/
theorem isSome_get?_iff (diff : List Char) {p : List Char} (hp : Path.IsNormal p) :
    ((changedLines base diff).get? p).isSome = true ↔
      p ∈ (changedLines base diff).files.map Prod.fst := by
  have hchanged := canonical_changedLines base diff
  simp only [Option.isSome_iff_exists, ChangedLines.get?_eq_some_iff hchanged hp, List.mem_map,
    Prod.exists, exists_eq_right, exists_and_right]

/-- Of normal paths in the order of paths, those that a diff has are the files of the diff that are
among them, in the order in which the diff has them. -/
theorem filter_isSome_get?_eq (diff : List Char) {listed : List (List Char)}
    (hnormal : ∀ p ∈ listed, normalize base p = p)
    (hordered : listed.Pairwise fun p q => order p q = .lt) :
    listed.filter (fun p => ((changedLines base diff).get? p).isSome) =
      ((changedLines base diff).files.map Prod.fst).filter (· ∈ listed) := by
  have hkeys : ((changedLines base diff).files.map Prod.fst).Pairwise
      fun p q => order p q = .lt :=
    List.pairwise_map.2 (canonical_changedLines base diff).ascending
  -- Both sides have the same members in the same order.
  refine ChangedLines.eq_of_pairwise_of_mem_iff ChangedLines.order_asymm (hordered.filter _)
    (hkeys.filter _) fun p => ?_
  have hkey : p ∈ listed → (((changedLines base diff).get? p).isSome = true ↔
      p ∈ (changedLines base diff).files.map Prod.fst) := by
    intro hp
    exact isSome_get?_iff diff (hnormal p hp ▸ Path.isNormal_normalize base p)
  simp only [List.mem_filter, decide_eq_true_eq]
  constructor
  · rintro ⟨hp, hget⟩
    exact ⟨(hkey hp).1 hget, hp⟩
  · rintro ⟨hfile, hp⟩
    exact ⟨hp, (hkey hp).2 hfile⟩

/-- Listed are the files below the place, all of them as normal paths. -/
theorem mem_filesBelow_iff (ht : t.WellFormed) (hbase : Path.isAbsolute base = true)
    (root p : List Char) : p ∈ t.filesBelow (normalize base root) ↔
      normalize base p = p ∧ isBelow p (normalize base root) = true ∧ t.isFile p = true := by
  have hbelow := FileTree.mem_filesBelow_normalize ht hbase root p
  constructor
  · intro hp
    have hnormal := normalize_of_mem_filesBelow ht hbase hp
    rw [hnormal] at hbelow
    exact ⟨hnormal, hbelow.1 hp⟩
  · rintro ⟨hnormal, hp⟩
    rw [hnormal] at hbelow
    exact hbelow.2 hp

/-- **A walk lists exactly the files below a place that are looked at**, each once, in the order of
their names as bytes, which is the order of the files of a diff. -/
theorem listsAccepted (ht : t.WellFormed) (hbase : Path.isAbsolute base = true) (root : List Char)
    (f : TargetFilter) : ListsAccepted t base (normalize base root) f
      ((t.filesBelow (normalize base root)).filter f.accepts) := by
  have hmem : ∀ p, p ∈ (t.filesBelow (normalize base root)).filter f.accepts ↔
      normalize base p = p ∧ isBelow p (normalize base root) = true ∧ t.isFile p = true ∧
        f.accepts p = true := by
    intro p
    rw [List.mem_filter, mem_filesBelow_iff ht hbase]
    simp only [and_assoc]
  have hordered : ((t.filesBelow (normalize base root)).filter f.accepts).Pairwise
      fun p q => order p q = .lt := by
    obtain ⟨names, hnames, hroot⟩ := Path.exists_rooted hbase root
    rw [hroot]
    exact (FileTree.pairwise_filesBelow ht hnames).filter _
  refine ⟨hmem, nodup_of_pairwise_order hordered, ?_, fun diff => ?_, fun hplace => ?_⟩
  · refine hordered.imp_of_mem fun hp hq hpq => ?_
    exact utf8Names_lt_of_order hbase ((hmem _).1 hp).1 ((hmem _).1 hq).1 hpq
  · exact filter_isSome_get?_eq diff (fun p hp => ((hmem p).1 hp).1) hordered
  · rw [filesBelow_of_isDirectory_eq_false hplace]
    rfl

end Walk

/-! ### Names that begin alike -/

/-- A directory whose entries begin alike, one of them a directory with the extension of a
script. -/
def likeNames : FileTree :=
  .directory [("a.tsx".toList, .file []), ("a-b".toList, .directory [("b.tsx".toList, .file [])]),
    ("a.ts".toList, .directory [("c.js".toList, .file [])]),
    ("a".toList, .directory [("z.ts".toList, .file []), ("notes.txt".toList, .file [])])]

theorem wellFormed_likeNames : likeNames.WellFormed := by
  have hone : ∀ name : List Char, IsName name →
      (FileTree.directory [(name, .file [])]).WellFormed := by
    intro name hname
    exact .directory (by simp) (by simpa using hname) (by simpa using .file _)
  have htwo : (FileTree.directory
      [("z.ts".toList, .file []), ("notes.txt".toList, .file [])]).WellFormed :=
    .directory (by decide) (by decide) (by simpa using .file _)
  refine .directory (by decide) (by decide) ?_
  simpa using ⟨.file _, hone _ (by decide), hone _ (by decide), htwo⟩

/-- The files in `a` come before those in `a-b`, and the directory `a.ts` is no file. -/
theorem listsAccepted_likeNames :
    let f : TargetFilter := .ofIgnores "/".toList []
    let listed := (likeNames.filesBelow (normalize "/".toList ".".toList)).filter f.accepts
    likeNames.WellFormed ∧ Path.isAbsolute "/".toList = true ∧
      ListsAccepted likeNames "/".toList (normalize "/".toList ".".toList) f listed ∧
      listed = ["/a/z.ts".toList, "/a-b/b.tsx".toList, "/a.ts/c.js".toList, "/a.tsx".toList] := by
  intro f listed
  have hbase : Path.isAbsolute "/".toList = true := by decide
  have hroot : normalize "/".toList ".".toList = "/".toList := by decide
  have hplace : likeNames.at? "/".toList = some likeNames := rfl
  have hfiles : likeNames.filesBelow "/".toList = ["/a/notes.txt".toList, "/a/z.ts".toList,
      "/a-b/b.tsx".toList, "/a.ts/c.js".toList, "/a.tsx".toList] := by
    rw [FileTree.filesBelow, hplace]
    simp +decide [likeNames, FileTree.files, FileTree.filesOf, FileTree.filesOfEntry,
      FileTree.entryPath, FileTree.nameBefore, List.mergeSort, List.compare_cons_cons]
  have hlisted : listed =
      ["/a/z.ts".toList, "/a-b/b.tsx".toList, "/a.ts/c.js".toList, "/a.tsx".toList] := by
    unfold listed f
    rw [hroot, hfiles]
    decide +kernel
  exact ⟨wellFormed_likeNames, hbase, listsAccepted wellFormed_likeNames hbase ".".toList f,
    hlisted⟩

end Untranslated
