import Untranslated.Proofs.Anchors
import Untranslated.Proofs.GitDiff
import Untranslated.Proofs.PathSteps
import Untranslated.Target

/-!
# Names as diffs print them

A diff prints the name of a changed file as it is where all of its characters are plain, and else
in quotes, with the other characters written as escapes. Reading takes what is printed for the name
itself: it decodes nothing, and cuts blanks off the end. So a file is known by its own path just if
its name is plain and does not end in a space.

* `PrintedSection`: the section of a file that only gains lines, as it is printed.
* `normalize_quotedName_ne`, `normalize_trimEnd_ne`: a quoted or cut name is another path.
* `changedLines_printed`: what is read of such a section, and when it is right.
-/

namespace Untranslated.GitDiff

open Untranslated.Path (Component component? descend steps normalize rooted IsDirectoryText)
open Text (lines unlines dropReturn isBlank trimEnd exists_trimEnd
  isBlank_of_mem_getLast?_trimEnd)

/-! ### Printing names -/

/-- The character is printed as it is: ASCII, no control character and no mark of quoting. -/
def isPlainChar (c : Char) : Bool :=
  ' ' ≤ c && c ≤ '~' && c != '"' && c != '\\'

/-- A byte in octal. -/
def octalByte (b : UInt8) : List Char :=
  ['\\', Nat.digitChar (b.toNat / 64), Nat.digitChar (b.toNat / 8 % 8), Nat.digitChar (b.toNat % 8)]

/-- The letter that stands for a character after a backslash. -/
def escapeLetter? : Char → Option Char
  | '\x07' => some 'a'
  | '\x08' => some 'b'
  | '\t' => some 't'
  | '\n' => some 'n'
  | '\x0b' => some 'v'
  | '\x0c' => some 'f'
  | '\r' => some 'r'
  | '"' => some '"'
  | '\\' => some '\\'
  | _ => none

/-- A character in quotes: plain, after a backslash, or written by its bytes. -/
def escapedChar (c : Char) : List Char :=
  if isPlainChar c then [c]
  else
    match escapeLetter? c with
    | some letter => ['\\', letter]
    | none => (String.utf8EncodeChar c).flatMap octalByte

/-- A text in quotes. -/
def escaped (s : List Char) : List Char :=
  s.flatMap escapedChar

/-- The name of a file in quotes. -/
def quotedName (name : List Char) : List Char :=
  '"' :: 'b' :: '/' :: (escaped name ++ ['"'])

/-- The name of a file as it is printed. -/
def printedName (name : List Char) : List Char :=
  if name.all isPlainChar then "b/".toList ++ name else quotedName name

/-! ### Escapes -/

/-- The character is ASCII and no control character. -/
def IsPrinted (c : Char) : Prop :=
  ' ' ≤ c ∧ c ≤ '~'

instance : DecidablePred IsPrinted := fun c =>
  inferInstanceAs (Decidable (' ' ≤ c ∧ c ≤ '~'))

theorem isPrinted_of_isPlainChar {c : Char} (h : isPlainChar c = true) : IsPrinted c := by
  simp only [isPlainChar, Bool.and_eq_true, decide_eq_true_eq] at h
  exact h.1.1

theorem escapeLetter?_spec {c letter : Char} (h : escapeLetter? c = some letter) :
    IsPrinted letter ∧ letter ≠ '/' := by
  unfold escapeLetter? at h
  split at h
  case h_10 => cases h
  all_goals
    obtain rfl := Option.some.inj h
    decide

theorem digitChar_of_lt {n : Nat} (h : n < 8) :
    IsPrinted (Nat.digitChar n) ∧ Nat.digitChar n ≠ '/' := by
  have hall : ∀ n < 8, IsPrinted (Nat.digitChar n) ∧ Nat.digitChar n ≠ '/' := by decide
  exact hall n h

theorem octalByte_spec (b : UInt8) : ∀ c ∈ octalByte b, IsPrinted c ∧ c ≠ '/' := by
  have hlt : b.toNat < 256 := b.toNat_lt
  intro c hc
  simp only [octalByte, List.mem_cons, List.not_mem_nil, or_false] at hc
  rcases hc with rfl | rfl | rfl | rfl
  · decide
  · exact digitChar_of_lt (by omega)
  · exact digitChar_of_lt (by omega)
  · exact digitChar_of_lt (by omega)

/-- A character stays, or is written as a backslash with more after it, and no slash. -/
theorem escapedChar_cases (c : Char) :
    (isPlainChar c = true ∧ escapedChar c = [c]) ∨
      (isPlainChar c = false ∧ (∃ d rest, escapedChar c = '\\' :: d :: rest) ∧
        ∀ e ∈ escapedChar c, IsPrinted e ∧ e ≠ '/') := by
  unfold escapedChar
  cases hc : isPlainChar c with
  | true => exact .inl ⟨rfl, rfl⟩
  | false =>
    rw [if_neg Bool.false_ne_true]
    refine .inr ⟨rfl, ?_⟩
    cases hletter : escapeLetter? c with
    | some letter =>
      refine ⟨⟨letter, [], rfl⟩, fun e he => ?_⟩
      rcases List.mem_cons.1 he with rfl | he
      · decide
      · obtain rfl := List.mem_singleton.1 he
        exact escapeLetter?_spec hletter
    | none =>
      refine ⟨?_, fun e he => ?_⟩
      · cases hbytes : String.utf8EncodeChar c with
        | nil => exact absurd hbytes String.utf8EncodeChar_ne_nil
        | cons b bytes => exact ⟨_, _, rfl⟩
      · obtain ⟨b, -, he⟩ := List.mem_flatMap.1 he
        exact octalByte_spec b e he

theorem escaped_append (s t : List Char) : escaped (s ++ t) = escaped s ++ escaped t :=
  List.flatMap_append

theorem escaped_cons (c : Char) (s : List Char) : escaped (c :: s) = escapedChar c ++ escaped s :=
  rfl

theorem isPrinted_of_mem_escaped {s : List Char} : ∀ c ∈ escaped s, IsPrinted c := by
  intro c hc
  obtain ⟨d, -, hc⟩ := List.mem_flatMap.1 hc
  rcases escapedChar_cases d with ⟨hplain, hd⟩ | ⟨-, -, hall⟩
  · rw [hd] at hc
    obtain rfl := List.mem_singleton.1 hc
    exact isPrinted_of_isPlainChar hplain
  · exact (hall c hc).1

theorem slash_notMem_escaped {s : List Char} (h : '/' ∉ s) : '/' ∉ escaped s := by
  intro hmem
  obtain ⟨d, hd, hmem⟩ := List.mem_flatMap.1 hmem
  rcases escapedChar_cases d with ⟨-, hchar⟩ | ⟨-, -, hall⟩
  · rw [hchar] at hmem
    exact h (List.mem_singleton.1 hmem ▸ hd)
  · exact (hall '/' hmem).2 rfl

theorem length_le_escaped (s : List Char) : s.length ≤ (escaped s).length := by
  induction s with
  | nil => exact Nat.le_refl 0
  | cons c s ih =>
    have hchar : 1 ≤ (escapedChar c).length := by
      rcases escapedChar_cases c with ⟨-, hc⟩ | ⟨-, ⟨d, rest, hc⟩, -⟩ <;> rw [hc] <;> simp
    rw [escaped_cons, List.length_append, List.length_cons]
    omega

/-- What begins with a dot in quotes does so without them. -/
theorem exists_of_escaped_dot {s t : List Char} (h : escaped s = '.' :: t) :
    ∃ rest, s = '.' :: rest ∧ escaped rest = t := by
  cases s with
  | nil => cases h
  | cons c s =>
    rw [escaped_cons] at h
    rcases escapedChar_cases c with ⟨-, hc⟩ | ⟨-, ⟨d, rest, hc⟩, -⟩
    · rw [hc] at h
      obtain ⟨rfl, hs⟩ := List.cons.inj h
      exact ⟨s, rfl, hs⟩
    · rw [hc] at h
      exact absurd (List.cons.inj h).1 (by decide)

theorem escaped_eq_nil_iff {s : List Char} : escaped s = [] ↔ s = [] := by
  constructor
  · intro h
    have hlength := length_le_escaped s
    rw [h] at hlength
    exact List.eq_nil_of_length_eq_zero (Nat.le_zero.1 hlength)
  · rintro rfl
    rfl

/-- A part between slashes says the same in quotes, with its name in quotes. -/
theorem component?_escaped (s : List Char) :
    component? (escaped s) = (component? s).map (Component.mapName escaped) := by
  by_cases hnil : s = []
  · rw [hnil]
    rfl
  by_cases hdot : s = ['.']
  · rw [hdot]
    rfl
  by_cases hdots : s = ['.', '.']
  · rw [hdots]
    rfl
  -- any other part is a name, and neither nothing nor dots in quotes
  have hname : ∀ t : List Char, t ≠ [] → t ≠ ['.'] → t ≠ ['.', '.'] →
      component? t = some (.name t) := by
    intro t hnil hdot hdots
    unfold component?
    split <;> first | contradiction | rfl
  rw [hname s hnil hdot hdots]
  apply hname (escaped s)
  · exact fun h => hnil (escaped_eq_nil_iff.1 h)
  · intro h
    obtain ⟨rest, rfl, hrest⟩ := exists_of_escaped_dot h
    obtain rfl := escaped_eq_nil_iff.1 hrest
    exact hdot rfl
  · intro h
    obtain ⟨rest, rfl, hrest⟩ := exists_of_escaped_dot h
    obtain ⟨more, rfl, hmore⟩ := exists_of_escaped_dot hrest
    obtain rfl := escaped_eq_nil_iff.1 hmore
    exact hdots rfl

theorem steps_escaped (p : List Char) :
    steps (escaped p) = (steps p).map (Component.mapName escaped) := by
  induction hn : p.length using Nat.strong_induction_on generalizing p with
  | _ n ih =>
    rcases Path.eq_or_exists_slash p with hp | ⟨s, rest, hs, rfl⟩
    · rw [Path.steps_of_notMem hp, Path.steps_of_notMem (slash_notMem_escaped hp),
        component?_escaped]
      cases component? p <;> rfl
    · have hlength : rest.length < n := by
        rw [← hn]
        simp
        omega
      have hslash : escaped ('/' :: rest) = '/' :: escaped rest := rfl
      rw [escaped_append, hslash, Path.steps_cons_slash hs,
        Path.steps_cons_slash (slash_notMem_escaped hs), component?_escaped, List.map_append,
        ih _ hlength rest rfl]
      cases component? s <;> rfl

/-! ### Other paths -/

section Names

variable {cwd name : List Char}

theorem isDirectoryText_escaped {d : List Char} (h : IsDirectoryText d) :
    IsDirectoryText (escaped d) := by
  rcases h with rfl | h
  · exact .inl rfl
  · obtain ⟨d, rfl⟩ := List.getLast?_eq_some_iff.1 h
    right
    rw [escaped_append]
    change (escaped d ++ ['/']).getLast? = some '/'
    rw [List.getLast?_append]
    rfl

/-- The steps of a quoted name: its directories lie in one with a quote in its name, and so has
its last part. -/
theorem steps_quotedName {d last : List Char} (hd : IsDirectoryText d) (hlast : '/' ∉ last) :
    steps (quotedName (d ++ last)) = .name ['"', 'b'] ::
      ((steps d).map (Component.mapName escaped) ++ [.name (escaped last ++ ['"'])]) := by
  have hpart : '/' ∉ escaped last ++ ['"'] := by
    simp [slash_notMem_escaped hlast]
  have hname : component? (escaped last ++ ['"']) = some (.name (escaped last ++ ['"'])) := by
    unfold component?
    split
    case h_1 h => simp at h
    case h_2 h =>
      have := congrArg List.getLast? h
      simp at this
    case h_3 h =>
      have := congrArg List.getLast? h
      simp at this
    case h_4 => rfl
  change steps (['"', 'b'] ++ '/' :: (escaped (d ++ last) ++ ['"'])) = _
  rw [Path.steps_append_slash, escaped_append, List.append_assoc,
    Path.steps_append (isDirectoryText_escaped hd), steps_escaped, Path.steps_of_notMem hpart,
    hname]
  rfl

/-- **A name in quotes is another path**: it ends in another name or leads deeper. -/
theorem normalize_quotedName_ne (hcwd : Path.isAbsolute cwd = true)
    (hname : Path.isAbsolute name = false) :
    normalize cwd (quotedName name) ≠ normalize cwd name := by
  obtain ⟨names, hnames, hreach⟩ := Path.exists_descend hcwd
  obtain ⟨d, last, hd, hlast, rfl⟩ := Path.exists_directoryText name
  rw [hreach _ rfl, hreach _ hname, ne_eq, Path.normalize_eq_iff hnames, steps_quotedName hd hlast,
    Path.steps_append hd, List.foldl_cons, List.foldl_append, List.foldl_append,
    Path.steps_of_notMem hlast]
  have hdepth := Path.length_foldl_descend_le escaped (steps d)
    (show names.length ≤ (descend names (.name ['"', 'b'])).length by simp [descend])
  refine Path.cons_ne_foldl_descend hdepth fun t ht => ?_
  rintro rfl
  have hlength := congrArg List.length (Path.component?_eq_name ht)
  have hle := length_le_escaped last
  rw [List.length_append, List.length_singleton] at hlength
  omega

theorem trimEnd_append (s t : List Char) :
    trimEnd (s ++ t) = if trimEnd t = [] then trimEnd s else s ++ trimEnd t := by
  by_cases h : trimEnd t = []
  · rw [if_pos h]
    induction s with
    | nil => exact h
    | cons c s ih => rw [List.cons_append, trimEnd, ih, trimEnd]
  · rw [if_neg h]
    induction s with
    | nil => rfl
    | cons c s ih =>
      rw [List.cons_append, trimEnd, ih]
      cases hs : s ++ trimEnd t with
      | nil => exact absurd (List.append_eq_nil_iff.1 hs).2 h
      | cons d rest => rw [List.cons_append, hs]

/-- Blanks are cut off the last part only. -/
theorem trimEnd_directoryText {d : List Char} (hd : IsDirectoryText d) (s : List Char) :
    trimEnd (d ++ s) = d ++ trimEnd s := by
  have htrim : trimEnd d = d := by
    apply trimEnd_eq_self
    rcases hd with rfl | hd
    · simp
    · rw [hd]
      rintro c ⟨⟩
      decide
  rw [trimEnd_append]
  split_ifs with h
  · rw [htrim, h, List.append_nil]
  · rfl

theorem isAbsolute_trimEnd (hname : Path.isAbsolute name = false) :
    Path.isAbsolute (trimEnd name) = false := by
  obtain ⟨tail, htail, -⟩ := exists_trimEnd name
  cases hkept : trimEnd name with
  | nil => rfl
  | cons c kept =>
    rw [hkept] at htail
    rw [htail] at hname
    exact hname

/-- **A name without a blank at its end is another path than the name with it.** -/
theorem normalize_trimEnd_ne (hcwd : Path.isAbsolute cwd = true)
    (hname : Path.isAbsolute name = false) {c : Char} (hc : name.getLast? = some c)
    (hblank : isBlank c = true) : normalize cwd (trimEnd name) ≠ normalize cwd name := by
  obtain ⟨names, hnames, hreach⟩ := Path.exists_descend hcwd
  rw [hreach _ (isAbsolute_trimEnd hname), hreach _ hname, ne_eq, Path.normalize_eq_iff hnames]
  obtain ⟨d, last, hd, hlast, rfl⟩ := Path.exists_directoryText name
  have hend : last.getLast? = some c := by
    cases hl : last.getLast? with
    | some e => rwa [List.getLast?_append, hl] at hc
    | none =>
      rw [List.getLast?_eq_none_iff] at hl
      rw [hl, List.append_nil] at hc
      rcases hd with rfl | hd
      · cases hc
      · obtain rfl := Option.some.inj (hd.symm.trans hc)
        exact absurd hblank (by decide)
  -- A part that ends in a blank is no dot or dots, so it is a name.
  have hpart : component? last = some (.name last) := by
    unfold component?
    split
    case h_1 => cases hend
    case h_4 => rfl
    all_goals
      obtain rfl := Option.some.inj hend
      exact absurd hblank (by decide)
  obtain ⟨tail, htail, -⟩ := exists_trimEnd last
  have hshort : trimEnd last ≠ last := by
    intro heq
    have hkept := @isBlank_of_mem_getLast?_trimEnd last c (by rw [heq]; exact hend)
    rw [hblank] at hkept
    cases hkept
  have hslash : '/' ∉ trimEnd last := fun h => hlast (htail ▸ List.mem_append_left _ h)
  rw [trimEnd_directoryText hd, Path.steps_append hd, Path.steps_append hd, List.foldl_append,
    List.foldl_append, Path.steps_of_notMem hlast, Path.steps_of_notMem hslash, hpart]
  refine fun heq => Path.cons_ne_foldl_descend (le_refl _) (fun t ht => ?_) heq.symm
  rw [Path.component?_eq_name ht]
  exact hshort

theorem extension?_of_quote {p s : List Char} (h : Path.fileName? p = some (s ++ ['"'])) :
    ∀ e ∈ Path.extension? p, e.getLast? = some '"' := by
  intro e he
  unfold Path.extension? at he
  rw [h] at he
  simp only [Option.bind_eq_bind, Option.bind_some, List.reverse_append, List.reverse_cons,
    List.reverse_nil, List.nil_append, List.singleton_append] at he
  rw [List.takeWhile_cons_of_pos (by decide), List.reverse_cons] at he
  split_ifs at he
  · obtain rfl := Option.some.inj he
    rw [List.getLast?_append]
    rfl
  · cases he

/-- **A file whose name is quoted is not looked at**: the quote is taken for the end of its
extension. -/
theorem accepts_quotedName (hcwd : Path.isAbsolute cwd = true) (f : TargetFilter) :
    f.accepts (normalize cwd (quotedName name)) = false := by
  obtain ⟨names, hnames, hreach⟩ := Path.exists_descend hcwd
  obtain ⟨d, last, hd, hlast, rfl⟩ := Path.exists_directoryText name
  have hsteps := steps_quotedName hd hlast
  have hname : ∀ s ∈ ((steps (quotedName (d ++ last))).foldl descend names).reverse,
      Path.IsName s := by
    intro s hs
    exact Path.isName_of_mem_foldl (fun _ hc => Path.isStep_of_mem_steps hc) hnames s
      (List.mem_reverse.1 hs)
  have hfile : Path.fileName? (normalize cwd (quotedName (d ++ last))) =
      some (escaped last ++ ['"']) := by
    rw [hreach _ rfl, Path.fileName?, Path.components_rooted hname, hsteps, List.foldl_cons,
      List.foldl_append]
    simp [descend, List.getLast?_cons]
  -- No extension of a script ends in a quote.
  have hscript : isScriptPath (normalize cwd (quotedName (d ++ last))) = false := by
    unfold isScriptPath
    cases he : Path.extension? (normalize cwd (quotedName (d ++ last))) with
    | none => rfl
    | some e =>
      have hquote := extension?_of_quote hfile e he
      rw [Option.any_some, Bool.eq_false_iff, ne_eq, List.contains_iff_mem]
      intro hmem
      have htext := List.mem_map_of_mem (f := String.toList) hmem
      rw [String.toList_ofList] at htext
      have hall : ∀ s ∈ scriptExtensions.map String.toList, s.getLast? ≠ some '"' := by decide
      exact hall e htext hquote
  unfold TargetFilter.accepts
  rw [hscript]
  rfl

end Names

/-! ### Sections with printed names -/

/-- The name that is read of what is printed for a name. -/
def readName (name : List Char) : List Char :=
  if name.all isPlainChar then trimEnd name else quotedName name

/-- The section of a file that only gains lines, its name as it is printed. -/
structure PrintedSection where
  /-- The first line after its mark. -/
  heading : List Char
  /-- Header lines before the name, among them one with the old name. -/
  extended : List (List Char) := []
  name : List Char
  /-- A tab follows the name. -/
  isTabbed : Bool := false
  hunk : Hunk
  heading_line : '\n' ∉ heading
  extended_line : ∀ l ∈ extended, '\n' ∉ l
  extended_ok : ∀ l ∈ extended, ∀ head ∈ ["diff --git ", "+++ ", "@@"], ¬ head.toList <+: l
  relative : Path.isAbsolute name = false
  added : ∀ l ∈ hunk.body, l.side = .added

namespace PrintedSection

variable (s : PrintedSection)

/-- What follows the name. -/
def tail : List Char :=
  if s.isTabbed then ['\t'] else []

/-- The line with the name. -/
def nameLine : List Char :=
  "+++ ".toList ++ (printedName s.name ++ s.tail)

/-- The text of the section. -/
def text : List Char :=
  unlines (("diff --git ".toList ++ s.heading) :: (s.extended ++ s.nameLine :: s.hunk.lines))

/-- The numbers of the lines that are added. -/
def numbers : List Nat :=
  List.range' s.hunk.newStart s.hunk.body.length

end PrintedSection

/-! ### Reading printed names -/

theorem isPrinted_of_mem_printedName {name : List Char} : ∀ c ∈ printedName name, IsPrinted c := by
  intro c hc
  unfold printedName at hc
  have hmarks : ∀ c ∈ ['"', 'b', '/'], IsPrinted c := by
    simp only [List.forall_mem_cons, List.not_mem_nil, false_implies, implies_true, and_true]
    decide
  split_ifs at hc with hplain
  · rcases List.mem_append.1 hc with hc | hc
    · exact hmarks c (List.mem_cons_of_mem _ hc)
    · exact isPrinted_of_isPlainChar (List.all_eq_true.1 hplain c hc)
  · rcases List.mem_append.1 (show c ∈ ['"', 'b', '/'] ++ (escaped name ++ ['"']) from hc) with
      hc | hc
    · exact hmarks c hc
    · rcases List.mem_append.1 hc with hc | hc
      · exact isPrinted_of_mem_escaped c hc
      · exact hmarks c (by simp [List.mem_singleton.1 hc])

/-- A printed name is read as it is, its blanks at the end cut off. -/
theorem markedTarget?_printedName (s : PrintedSection) :
    markedTarget? (printedName s.name ++ s.tail) = some (readName s.name) := by
  have htab : ∀ c ∈ printedName s.name, (c != '\t') = true := by
    intro c hc
    have : c ≠ '\t' := by
      rintro rfl
      exact absurd (isPrinted_of_mem_printedName _ hc) (by decide)
    simpa using this
  have htake : (printedName s.name ++ s.tail).takeWhile (· != '\t') = printedName s.name := by
    rw [List.takeWhile_append_of_pos htab]
    unfold PrintedSection.tail
    split_ifs <;> simp
  unfold markedTarget?
  rw [htake]
  unfold printedName readName
  split_ifs with hplain
  · -- The prefix of a plain name is cut off, and so are the blanks at its end.
    have hdirectory : IsDirectoryText "b/".toList := .inr rfl
    have hnull : "b/".toList ++ trimEnd s.name ≠ "/dev/null".toList := fun h => by simp at h
    rw [trimEnd_directoryText hdirectory]
    simp only [if_neg hnull, after?_append, Option.getD_some]
  · -- A quoted name begins with its quote and not with the prefix, and ends with no blank.
    have htrim : trimEnd (quotedName s.name) = quotedName s.name := by
      apply trimEnd_eq_self
      intro c hc
      have hlast : (quotedName s.name).getLast? = some '"' := by
        simp [quotedName, List.getLast?_cons]
      obtain rfl := Option.some.inj (hlast.symm.trans hc)
      decide
    have hnull : quotedName s.name ≠ "/dev/null".toList := fun h => by simp [quotedName] at h
    have hhead : after? "b/" (quotedName s.name) = none := by
      rw [after?_eq_none_iff]
      simp [quotedName]
    simp only [htrim, if_neg hnull, hhead, Option.getD_none]

theorem dropReturn_nameLine (s : PrintedSection) : dropReturn s.nameLine = s.nameLine := by
  apply Text.dropReturn_eq_self
  intro hlast
  have hmem := List.mem_of_getLast? hlast
  unfold PrintedSection.nameLine PrintedSection.tail at hmem
  simp only [List.mem_append] at hmem
  rcases hmem with hmem | hmem | hmem
  · exact absurd hmem (by decide)
  · exact absurd (isPrinted_of_mem_printedName _ hmem) (by decide)
  · split_ifs at hmem <;> simp at hmem

theorem addedFrom_of_added {body : List BodyLine} (h : ∀ l ∈ body, l.side = .added) (n : Nat) :
    addedFrom n body = List.range' n body.length := by
  induction body generalizing n with
  | nil => rfl
  | cons l body ih =>
    obtain ⟨hl, hbody⟩ := List.forall_mem_cons.1 h
    rw [addedFrom, ih hbody, hl, List.length_cons, List.range'_succ]
    rfl

/-- The first line of a section leads out of hunks, whatever it says. -/
theorem pass_heading (cwd : List Char) (c : DiffCursor) (heading : List Char) :
    c.mark? (dropReturn ("diff --git ".toList ++ heading)) = none ∧
      ∃ file, c.pass cwd (dropReturn ("diff --git ".toList ++ heading)) = ⟨file, 0, 0, 0⟩ := by
  obtain ⟨rest, hrest⟩ : ∃ rest, dropReturn ("diff --git ".toList ++ heading) =
      "diff --git ".toList ++ rest := by
    by_cases hnil : heading = []
    · exact ⟨[], by rw [hnil]; rfl⟩
    · exact ⟨_, Text.dropReturn_append _ hnil⟩
  rw [hrest]
  exact ⟨(pass_section cwd c (List.prefix_append _ _)).1, _, pass_section_eq cwd c rest⟩

theorem newline_notMem_printed (s : PrintedSection) :
    ∀ l ∈ ("diff --git ".toList ++ s.heading) :: (s.extended ++ s.nameLine :: s.hunk.lines),
      '\n' ∉ l := by
  intro l hl
  rcases List.mem_cons.1 hl with rfl | hl
  · simp [s.heading_line]
  rcases List.mem_append.1 hl with hl | hl
  · exact s.extended_line l hl
  rcases List.mem_cons.1 hl with rfl | hl
  · unfold PrintedSection.nameLine PrintedSection.tail
    rw [List.mem_append, List.mem_append, not_or, not_or]
    refine ⟨by decide, fun h => ?_, by split_ifs <;> simp⟩
    exact absurd (isPrinted_of_mem_printedName _ h) (by decide)
  · exact newline_notMem_hunk s.hunk l hl

/-- The marks of a section say that its file is changed, and which lines it gained. -/
theorem diffMarks_text (cwd : List Char) (s : PrintedSection) :
    diffMarks cwd s.text = (normalize cwd (readName s.name), none) ::
      s.numbers.map fun n => (normalize cwd (readName s.name), some n) := by
  obtain ⟨hmark, file, hpass⟩ := pass_heading cwd {} s.heading
  obtain ⟨hother, hother'⟩ := @passAll_otherLines cwd ⟨file, 0, 0, 0⟩ rfl s.extended s.extended_ok
  obtain ⟨hname, hname'⟩ := pass_marked_eq cwd file (printedName s.name ++ s.tail)
  rw [markedTarget?_printedName, Option.map_some] at hname'
  obtain ⟨hhunk, -⟩ :=
    @passAll_hunk cwd ⟨some (normalize cwd (readName s.name)), 0, 0, 0⟩ rfl s.hunk
  unfold diffMarks PrintedSection.text
  rw [Text.lines_unlines (newline_notMem_printed s)]
  simp only [List.map_cons, List.map_append, DiffCursor.marks, DiffCursor.marks_append, hmark,
    hpass, hother, hother', dropReturn_nameLine]
  rw [PrintedSection.nameLine, hname, hname', hhunk, addedFrom_of_added s.added]
  rfl

/-- The lines of a section are read under the path that is taken for its name. -/
theorem changedLines_text (cwd : List Char) (s : PrintedSection) :
    changedLines cwd s.text = ⟨[(normalize cwd (readName s.name), s.numbers)]⟩ := by
  have hcanonical : ChangedLines.Canonical [(normalize cwd (readName s.name), s.numbers)] := by
    refine ⟨fun f hf => ?_, List.pairwise_singleton _ _, fun f hf => ?_⟩
    · rw [List.mem_singleton.1 hf]
      exact Path.isNormal_normalize _ _
    · rw [List.mem_singleton.1 hf]
      exact List.pairwise_lt_range'
  -- Sets of lines in order are told by which files they have and which lines they hold.
  refine ChangedLines.ext (canonical_changedLines cwd _) hcanonical (fun q => ?_) fun q n => ?_
  · rw [has_changedLines, diffMarks_text, ChangedLines.has_cons]
    constructor
    · rintro ⟨n, hn⟩
      rcases List.mem_cons.1 hn with heq | hn
      · exact .inl (Prod.mk.inj heq).1
      · obtain ⟨k, -, heq⟩ := List.mem_map.1 hn
        exact .inl (Prod.mk.inj heq).1.symm
    · rintro (rfl | h)
      · exact ⟨none, List.mem_cons_self⟩
      · exact absurd h (ChangedLines.not_has_nil q)
  · rw [holds_changedLines, diffMarks_text, ChangedLines.holds_cons]
    simp only [List.mem_cons, Prod.mk.injEq, reduceCtorEq, and_false, false_or, List.mem_map,
      Option.some.injEq, ChangedLines.not_holds_nil, or_false]
    constructor
    · rintro ⟨k, hk, rfl, rfl⟩
      exact ⟨rfl, hk⟩
    · rintro ⟨rfl, hn⟩
      exact ⟨n, hn, rfl, rfl⟩

/-- Of the characters that can be printed only the space is blank. -/
theorem isBlank_of_isPrinted {c : Char} (h : IsPrinted c) (hspace : c ≠ ' ') :
    isBlank c = false := by
  have hlow : 32 ≤ c.toNat := h.1
  have hhigh : c.toNat ≤ 126 := h.2
  rw [Bool.eq_false_iff, ne_eq]
  simp only [isBlank, Text.inRanges, Text.blankRanges, List.any_cons, List.any_nil,
    Bool.or_eq_true, Bool.and_eq_true, decide_eq_true_eq, beq_iff_eq, Bool.false_eq_true, hspace,
    false_or, or_false]
  omega

/-- **What is read of a printed name is its path** just if it is plain and does not end in a
space. -/
theorem normalize_readName_eq_iff {cwd name : List Char} (hcwd : Path.isAbsolute cwd = true)
    (hname : Path.isAbsolute name = false) : normalize cwd (readName name) = normalize cwd name ↔
      name.all isPlainChar = true ∧ name.getLast? ≠ some ' ' := by
  unfold readName
  by_cases hplain : name.all isPlainChar = true
  · rw [if_pos hplain]
    by_cases hspace : name.getLast? = some ' '
    · have hne := normalize_trimEnd_ne hcwd hname hspace (by decide)
      exact ⟨fun h => absurd h hne, fun h => absurd hspace h.2⟩
    · have htrim : trimEnd name = name := by
        refine trimEnd_eq_self fun c hc => ?_
        have hchar := List.all_eq_true.1 hplain c (List.mem_of_getLast? hc)
        refine isBlank_of_isPrinted (isPrinted_of_isPlainChar hchar) ?_
        rintro rfl
        exact hspace hc
      rw [htrim]
      exact ⟨fun _ => ⟨hplain, hspace⟩, fun _ => rfl⟩
  · rw [if_neg hplain]
    have hne := normalize_quotedName_ne hcwd hname
    exact ⟨fun h => absurd h hne, fun h => absurd h.1 hplain⟩

/-- **A file is known by its own path just if its name is plain and does not end in a space.**
Whatever its name is, the lines that it gained are read, under the one path that is taken for it;
and a file under a quoted name is not looked at. -/
theorem changedLines_printed {cwd : List Char} (hcwd : Path.isAbsolute cwd = true)
    (s : PrintedSection) :
    changedLines cwd s.text = ⟨[(normalize cwd (readName s.name), s.numbers)]⟩ ∧
      (normalize cwd (readName s.name) = normalize cwd s.name ↔
        s.name.all isPlainChar = true ∧ s.name.getLast? ≠ some ' ') ∧
      (s.name.all isPlainChar = false →
        ∀ f : TargetFilter, f.accepts (normalize cwd (readName s.name)) = false) := by
  refine ⟨changedLines_text cwd s, normalize_readName_eq_iff hcwd s.relative, fun hplain f => ?_⟩
  rw [readName, hplain, if_neg Bool.false_ne_true]
  exact accepts_quotedName hcwd f

/-- A hunk that adds two lines. -/
def twoLines : Hunk where
  oldStart := 0
  newStart := 1
  heading := []
  body := [⟨.added, ['x'], false, by decide⟩, ⟨.added, ['y'], false, by decide⟩]
  heading_line := by decide
  oldLength_of_short := by decide
  newLength_of_short := by decide
  newStart_lt := by decide
  oldLength_lt := by decide
  newLength_lt := by decide
  numbers_le := by decide

/-- The section of a file with a letter above ASCII in its name. -/
def cafeSection : PrintedSection where
  heading := "\"a/caf\\303\\251.tsx\" \"b/caf\\303\\251.tsx\"".toList
  name := "café.tsx".toList
  hunk := twoLines
  heading_line := by decide
  extended_line := by simp
  extended_ok := by simp
  relative := by decide
  added := by decide

/-- Its lines are read, under another path. -/
theorem changedLines_cafeSection :
    Path.isAbsolute "/repo".toList = true ∧ cafeSection.name.all isPlainChar = false ∧
      changedLines "/repo".toList cafeSection.text =
        ⟨[(normalize "/repo".toList (readName cafeSection.name), [1, 2])]⟩ ∧
      normalize "/repo".toList (readName cafeSection.name) ≠
        normalize "/repo".toList cafeSection.name := by
  have hcwd : Path.isAbsolute "/repo".toList = true := by decide
  have hplain : cafeSection.name.all isPlainChar = false := by decide
  obtain ⟨hread, hpath, -⟩ := changedLines_printed hcwd cafeSection
  refine ⟨hcwd, hplain, hread, fun heq => ?_⟩
  have hall := (hpath.1 heq).1
  rw [hplain] at hall
  cases hall

/-- The section is printed with the name in quotes, and the quotes are taken for a part of it. -/
theorem changedLines_cafeSection_ne :
    cafeSection.text = ("diff --git \"a/caf\\303\\251.tsx\" \"b/caf\\303\\251.tsx\"\n" ++
        "+++ \"b/caf\\303\\251.tsx\"\n@@ -0,0 +1,2 @@\n+x\n+y\n").toList ∧
      changedLines "/repo".toList cafeSection.text =
        ⟨[("/repo/\"b/caf\\303\\251.tsx\"".toList, [1, 2])]⟩ ∧
      changedLines "/repo".toList cafeSection.text ≠
        ⟨[(normalize "/repo".toList cafeSection.name, [1, 2])]⟩ := by
  decide +kernel

end Untranslated.GitDiff
