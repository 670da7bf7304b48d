import Untranslated.Proofs.DirectivePlaces
import Untranslated.Proofs.MarkedLines

/-!
# Lines by the state of the lines before

The lines that directives let through are collected as single lines, ranges that are closed and one
that may stay open. The same lines are told by a state that has only two values: before each line a
range is open or not, by the directives of the lines before. The two agree on every line, whatever
directives stand on one line and in whatever order.

* `BeginsWith`: a directive at the head of a text; `directiveAt?_eq_some_iff` finds it there.
* `Events`: the directives of a line, from left to right.
* `isOpenBefore`: a range is open before a line.
* `contains_ofSource_iff_events`: **the lines let through are those with a directive for them, and
  those with an open range before them or a directive that opens one**.
-/

namespace Untranslated

open Text (Line lines isBlank trim trimStart trimEnd)

/-! ### The directives of a line -/

/-- The character goes on with the name of a directive. -/
def isNameLetter (c : Char) : Bool :=
  ('a' ≤ c && c ≤ 'z') || c == '-'

/-- **A text begins with a directive**: with the mark of a comment, blanks, and the name, which ends
where no letter goes on with it. -/
def BeginsWith (d : Directive) (s : List Char) : Prop :=
  ∃ mark blanks rest, s = mark ++ (blanks ++ (d.name.toList ++ rest)) ∧
    mark ∈ ["//".toList, "/*".toList] ∧ (∀ b ∈ blanks, isBlank b = true) ∧
    ∀ c ∈ rest.head?, isNameLetter c = false

/-- The directives of a line, from left to right. -/
inductive Events : List Char → List Directive → Prop
  | nil : Events [] []
  | here {c : Char} {rest : List Char} {d : Directive} {ds : List Directive} :
      BeginsWith d (c :: rest) → Events rest ds → Events (c :: rest) (d :: ds)
  | skip {c : Char} {rest : List Char} {ds : List Directive} :
      (∀ d, ¬BeginsWith d (c :: rest)) → Events rest ds → Events (c :: rest) ds

section Names

theorem isBlank_of_isNameLetter {c : Char} (h : isNameLetter c = true) : isBlank c = false := by
  have hcode : c.toNat = 45 ∨ 97 ≤ c.toNat ∧ c.toNat ≤ 122 := by
    simp only [isNameLetter, Bool.or_eq_true, Bool.and_eq_true, decide_eq_true_eq, beq_iff_eq] at h
    rcases h with ⟨hlo, hhi⟩ | rfl
    · exact .inr ⟨hlo, hhi⟩
    · exact .inl rfl
  -- Blanks have codes below the letters, or beyond ASCII.
  have hspace : c ≠ ' ' := by
    rintro rfl
    revert hcode
    decide
  simp only [isBlank, Text.inRanges, Text.blankRanges, List.any_cons, List.any_nil, Bool.or_false,
    Bool.or_eq_false_iff, Bool.and_eq_false_iff, decide_eq_false_iff_not, beq_eq_false_iff_ne]
  refine ⟨⟨hspace, ?_⟩, ?_⟩
  · omega
  · omega

theorem trim_eq_self {s : List Char} (h : ∀ c ∈ s, isBlank c = false) : trim s = s := by
  have hstart : trimStart s = s := by
    cases s with
    | nil => rfl
    | cons c s => exact List.dropWhile_cons_of_neg (by simp [h c])
  have hend : ∀ t : List Char, (∀ c ∈ t, isBlank c = false) → trimEnd t = t := by
    intro t ht
    induction t with
    | nil => rfl
    | cons c t ih =>
      have hrest := ih fun d hd => ht d (List.mem_cons_of_mem _ hd)
      cases t with
      | nil => simp [trimEnd, ht c]
      | cons d t => rw [trimEnd, hrest]
  rw [trim, hstart, hend s h]

/-- The name of a directive is the common mark and letters. -/
theorem exists_letters (d : Directive) : ∃ letters, d.name.toList = directiveMark ++ letters ∧
    letters ≠ [] ∧ letters.all isNameLetter = true := by
  cases d with
  | ignoreLine => exact ⟨"ignore-line".toList, by decide, by decide, by decide⟩
  | ignoreNextLine => exact ⟨"ignore-next-line".toList, by decide, by decide, by decide⟩
  | disable => exact ⟨"disable".toList, by decide, by decide, by decide⟩
  | enable => exact ⟨"enable".toList, by decide, by decide, by decide⟩

/-- A run of characters of a kind before one that is not, or before nothing. -/
theorem takeWhile_append_of_head? {p : Char → Bool} {s rest : List Char} (hs : ∀ c ∈ s, p c = true)
    (hrest : ∀ c ∈ rest.head?, p c = false) :
    (s ++ rest).takeWhile p = s ∧ (s ++ rest).dropWhile p = rest := by
  have hhead : rest.takeWhile p = [] ∧ rest.dropWhile p = rest := by
    cases rest with
    | nil => exact ⟨rfl, rfl⟩
    | cons c rest =>
      have hc : ¬p c = true := by simp [hrest c rfl]
      exact ⟨List.takeWhile_cons_of_neg hc, List.dropWhile_cons_of_neg hc⟩
  rw [List.takeWhile_append_of_pos hs, List.dropWhile_append_of_pos hs, hhead.1, hhead.2,
    List.append_nil]
  exact ⟨rfl, rfl⟩

/-- What stands behind a run of characters of a kind does not go on with it. -/
theorem head?_dropWhile {p : Char → Bool} {s : List Char} :
    ∀ c ∈ (s.dropWhile p).head?, p c = false := by
  intro c hc
  have hnot := List.head?_dropWhile_not p s
  rw [Option.mem_def.1 hc] at hnot
  exact hnot

/-- **The name behind blanks**: the common mark and all letters that follow it. -/
theorem nameBehind?_eq_some_iff {s name : List Char} : nameBehind? s = some name ↔
    ∃ blanks letters rest, s = blanks ++ (directiveMark ++ (letters ++ rest)) ∧
      (∀ b ∈ blanks, isBlank b = true) ∧ letters ≠ [] ∧ (∀ c ∈ letters, isNameLetter c = true) ∧
      (∀ c ∈ rest.head?, isNameLetter c = false) ∧ name = directiveMark ++ letters := by
  have hname : nameBehind? s =
      if directiveMark.isPrefixOf (s.dropWhile isBlank) then
        if (((s.dropWhile isBlank).drop directiveMark.length).takeWhile isNameLetter).isEmpty
        then none
        else some (directiveMark ++
          ((s.dropWhile isBlank).drop directiveMark.length).takeWhile isNameLetter)
      else none := rfl
  rw [hname]
  constructor
  · intro h
    split_ifs at h with hmark hempty
    obtain ⟨more, hmore⟩ := List.isPrefixOf_iff_prefix.1 hmark
    rw [← hmore, List.drop_left] at h hempty
    refine ⟨s.takeWhile isBlank, more.takeWhile isNameLetter, more.dropWhile isNameLetter, ?_,
      fun b hb => List.mem_takeWhile_imp hb, by simpa using hempty,
      fun c hc => List.mem_takeWhile_imp hc, head?_dropWhile, (Option.some.inj h).symm⟩
    rw [List.takeWhile_append_dropWhile, hmore, List.takeWhile_append_dropWhile]
  · rintro ⟨blanks, letters, rest, rfl, hblanks, hne, hletters, hrest, rfl⟩
    -- Blanks end where the mark begins, letters where the rest does.
    have hmark : (blanks ++ (directiveMark ++ (letters ++ rest))).dropWhile isBlank =
        directiveMark ++ (letters ++ rest) := by
      refine (takeWhile_append_of_head? hblanks ?_).2
      intro c hc
      obtain rfl : 'i' = c := Option.some.inj hc
      decide
    have hprefix : directiveMark.isPrefixOf (directiveMark ++ (letters ++ rest)) = true :=
      List.isPrefixOf_iff_prefix.2 (List.prefix_append _ _)
    have htake := (takeWhile_append_of_head? hletters hrest).1
    rw [hmark, if_pos hprefix, List.drop_left, htake, if_neg (by simpa using hne)]

theorem afterCommentMark?_eq_some_iff {s rest : List Char} : afterCommentMark? s = some rest ↔
    ∃ mark ∈ ["//".toList, "/*".toList], s = mark ++ rest := by
  constructor
  · intro h
    unfold afterCommentMark? at h
    split at h
    case h_1 => exact ⟨"//".toList, by simp, by rw [← Option.some.inj h]; rfl⟩
    case h_2 => exact ⟨"/*".toList, by simp, by rw [← Option.some.inj h]; rfl⟩
    case h_3 => cases h
  · rintro ⟨mark, hmark, rfl⟩
    simp only [List.mem_cons, List.not_mem_nil, or_false] at hmark
    rcases hmark with rfl | rfl
    · rfl
    · rfl

/-- **A directive is found at the head of a text that begins with it**, and no other. -/
theorem directiveAt?_eq_some_iff {s : List Char} {d : Directive} :
    directiveAt? s = some d ↔ BeginsWith d s := by
  unfold directiveAt?
  constructor
  · intro h
    obtain ⟨name, hname, hd⟩ := Option.bind_eq_some_iff.1 h
    rw [directiveNameAt?_eq] at hname
    obtain ⟨behind, hbehind, hrun⟩ := Option.bind_eq_some_iff.1 hname
    obtain ⟨mark, hmark, rfl⟩ := afterCommentMark?_eq_some_iff.1 hbehind
    obtain ⟨blanks, letters, rest, rfl, hblanks, -, hletters, hrest, rfl⟩ :=
      nameBehind?_eq_some_iff.1 hrun
    have hcommon : directiveMark.all isNameLetter = true := by decide
    -- There is nothing to trim of a name.
    have htrim : trim (directiveMark ++ letters) = directiveMark ++ letters := by
      apply trim_eq_self
      intro c hc
      rcases List.mem_append.1 hc with hc | hc
      · exact isBlank_of_isNameLetter (List.all_eq_true.1 hcommon c hc)
      · exact isBlank_of_isNameLetter (hletters c hc)
    have heq : d.name.toList = directiveMark ++ letters := by
      have hfound := List.find?_some hd
      rw [htrim] at hfound
      exact eq_of_beq hfound
    refine ⟨mark, blanks, rest, ?_, hmark, hblanks, hrest⟩
    rw [heq, List.append_assoc]
  · rintro ⟨mark, blanks, rest, rfl, hmark, hblanks, hrest⟩
    obtain ⟨letters, hname, hne, hletters⟩ := exists_letters d
    have hfound : directiveNameAt? (mark ++ (blanks ++ (d.name.toList ++ rest))) =
        some d.name.toList := by
      rw [directiveNameAt?_eq, afterCommentMark?_eq_some_iff.2 ⟨mark, hmark, rfl⟩]
      refine nameBehind?_eq_some_iff.2 ⟨blanks, letters, rest, ?_, hblanks, hne,
        List.all_eq_true.1 hletters, hrest, hname⟩
      rw [hname, List.append_assoc]
    rw [hfound]
    cases d with
    | ignoreLine => decide
    | ignoreNextLine => decide
    | disable => decide
    | enable => decide

end Names

/-- **The directives of a line are its events.** -/
theorem events_iff {line : List Char} {ds : List Directive} :
    Events line ds ↔ ds = directives line := by
  constructor
  · intro h
    induction h with
    | nil => rfl
    | @here c rest d ds hd _ ih =>
      have hhead : (directiveNameAt? (c :: rest)).bind Directive.ofName? = some d :=
        directiveAt?_eq_some_iff.2 hd
      rw [directives, hhead, ← ih]
      rfl
    | @skip c rest ds hnone _ ih =>
      have hhead : (directiveNameAt? (c :: rest)).bind Directive.ofName? = none := by
        rw [Option.eq_none_iff_forall_ne_some]
        intro d hd
        exact hnone d (directiveAt?_eq_some_iff.1 hd)
      rw [directives, hhead, ← ih]
      rfl
  · rintro rfl
    induction line with
    | nil => exact .nil
    | cons c rest ih =>
      rw [directives]
      cases hhead : (directiveNameAt? (c :: rest)).bind Directive.ofName? with
      | some d => exact .here (directiveAt?_eq_some_iff.1 hhead) ih
      | none =>
        refine .skip (fun d hd => ?_) ih
        have hsome : (directiveNameAt? (c :: rest)).bind Directive.ofName? = some d :=
          directiveAt?_eq_some_iff.2 hd
        rw [hhead] at hsome
        cases hsome

/-! ### The state before a line -/

/-- A range is open after a directive, if `isOpen` says whether one was before it. -/
def opensAfter (isOpen : Bool) : Directive → Bool
  | .disable => true
  | .enable => false
  | _ => isOpen

/-- The directives of one of some lines, counted from 0. -/
def eventsIn (ls : List (List Char)) (k : Nat) : List Directive :=
  ls[k]?.elim [] directives

/-- The directives of a line of a script, counted from 1. -/
def eventsOn (s : List Char) : Nat → List Directive
  | 0 => []
  | n + 1 => eventsIn (lines s) n

/-- These are the directives of the line `n`, and there are none if there is no such line. -/
def IsEventsOn (s : List Char) (n : Nat) (ds : List Directive) : Prop :=
  (∃ l : Line s n, Events l.content ds) ∨ IsEmpty (Line s n) ∧ ds = []

/-- **A range is open before the line `n`**, by the directives of the lines before it. -/
def isOpenBefore (s : List Char) (n : Nat) : Bool :=
  ((List.range n).flatMap (eventsOn s)).foldl opensAfter false

namespace Ignores

variable {i : Ignores} {number n : Nat}

/-- The line is let through for itself, or in a range, of which the open one is followed up to the
line `number` only. -/
def CoversUpTo (i : Ignores) (number n : Nat) : Prop :=
  i.Settled n ∨ ∃ start, i.openFrom = some start ∧ start ≤ n ∧ n ≤ number

/-- The range that is open begins by the line `number`. -/
def OpensBy (i : Ignores) (number : Nat) : Prop :=
  ∀ start ∈ i.openFrom, start ≤ number

theorem contains_iff_coversUpTo (h : n ≤ number) :
    i.contains n = true ↔ i.CoversUpTo number n := by
  simp [contains_iff, CoversUpTo, h]

/-- **What one directive does** on the line `number`, of which nothing is known but that no range
begins behind it. -/
theorem coversUpTo_apply (hopen : i.OpensBy number) (d : Directive) (n : Nat) :
    (i.apply number d).CoversUpTo number n ↔ i.CoversUpTo number n ∨
      n = number ∧ (d = .ignoreLine ∨ d = .disable) ∨ n = number + 1 ∧ d = .ignoreNextLine := by
  have hsettled := settled_take (i := i) (m := ⟨number, 0, d⟩) (n := n)
  have hafter := openFrom_take i ⟨number, 0, d⟩
  change (i.apply number d).Settled n ↔ _ at hsettled
  change (i.apply number d).openFrom = _ at hafter
  unfold CoversUpTo
  rw [hsettled, hafter]
  cases d with
  | ignoreLine => simp [Mark.IsFor, or_right_comm, or_assoc]
  | ignoreNextLine => simp [Mark.IsFor, or_right_comm, or_assoc]
  | enable => simp [Mark.IsFor]
  | disable =>
    cases hfrom : i.openFrom with
    | none =>
      have hnumber : number ≤ n ∧ n ≤ number ↔ n = number := by omega
      simp [Mark.IsFor, hnumber]
    | some start =>
      -- A range that was open covers this line already.
      have hstart : start ≤ number := hopen start hfrom
      have hcovers : n = number → start ≤ n ∧ n ≤ number := by omega
      simp only [Mark.IsFor, reduceCtorEq, false_and, and_false, or_false, and_true, or_true,
        Option.or_some, Option.some.injEq, exists_eq_left', Option.getD_some]
      exact (or_iff_left_of_imp fun h => .inr (hcovers h)).symm

theorem opensBy_apply (hopen : i.OpensBy number) (d : Directive) :
    (i.apply number d).OpensBy number ∧
      (i.apply number d).openFrom.isSome = opensAfter i.openFrom.isSome d := by
  have hafter := openFrom_take i ⟨number, 0, d⟩
  change (i.apply number d).openFrom = _ at hafter
  unfold OpensBy
  rw [hafter]
  cases d with
  | ignoreLine => exact ⟨hopen, rfl⟩
  | ignoreNextLine => exact ⟨hopen, rfl⟩
  | enable => exact ⟨nofun, rfl⟩
  | disable =>
    cases hfrom : i.openFrom with
    | none => exact ⟨fun start h => (Option.some.inj h).ge, rfl⟩
    | some start => exact ⟨fun start' h => hopen start' (hfrom.trans h), rfl⟩

/-- **What the directives of one line do**, one after the other. -/
theorem coversUpTo_foldl (hopen : i.OpensBy number) (ds : List Directive) :
    (ds.foldl (apply number) i).OpensBy number ∧
      (ds.foldl (apply number) i).openFrom.isSome = ds.foldl opensAfter i.openFrom.isSome ∧
      ∀ n, (ds.foldl (apply number) i).CoversUpTo number n ↔ i.CoversUpTo number n ∨
        n = number ∧ (.ignoreLine ∈ ds ∨ .disable ∈ ds) ∨
        n = number + 1 ∧ .ignoreNextLine ∈ ds := by
  induction ds generalizing i with
  | nil => exact ⟨hopen, rfl, fun n => by simp⟩
  | cons d ds ih =>
    obtain ⟨hopen', hstate⟩ := opensBy_apply hopen d
    obtain ⟨hopens, hfold, hcovers⟩ := ih hopen'
    refine ⟨hopens, by rw [List.foldl_cons, hfold, hstate, List.foldl_cons], fun n => ?_⟩
    rw [List.foldl_cons, hcovers, coversUpTo_apply hopen]
    simp only [List.mem_cons, @eq_comm _ _ d]
    tauto

/-- Lines that follow do not reach back. -/
theorem contains_applyLines_of_lt (hopen : i.OpensBy number) (h : n < number)
    (ls : List (List Char)) :
    (applyLines number i ls).contains n = true ↔ i.contains n = true := by
  induction ls generalizing i number with
  | nil => rfl
  | cons l ls ih =>
    obtain ⟨hopens, -, hcovers⟩ := coversUpTo_foldl hopen (directives l)
    have hopens' : (List.foldl (apply number) i (directives l)).OpensBy (number + 1) :=
      fun start hstart => (hopens start hstart).trans (Nat.le_succ number)
    rw [applyLines, ih hopens' (by omega), contains_iff_coversUpTo h.le, hcovers,
      contains_iff_coversUpTo h.le]
    constructor
    · rintro (hcovered | ⟨rfl, -⟩ | ⟨rfl, -⟩)
      · exact hcovered
      · omega
      · omega
    · exact .inl

/-- From the line `number` on, an open range reaches every line. -/
theorem exists_start_iff (hopen : i.OpensBy number) (h : number ≤ n) :
    (∃ start, i.openFrom = some start ∧ start ≤ n) ↔ i.openFrom.isSome = true := by
  rw [Option.isSome_iff_exists]
  refine exists_congr fun start => and_iff_left_of_imp fun hstart => ?_
  exact (hopen start hstart).trans h

/-- **The lines that a run lets through**, from the line `number` on: by their own directives, by
those of the line before, or because a range is open before them. -/
theorem contains_applyLines (hopen : i.OpensBy number) (ls : List (List Char)) (k : Nat) :
    (applyLines number i ls).contains (number + k) = true ↔ i.Settled (number + k) ∨
      .ignoreLine ∈ eventsIn ls k ∨ .disable ∈ eventsIn ls k ∨
      (∃ j, k = j + 1 ∧ .ignoreNextLine ∈ eventsIn ls j) ∨
      ((List.range k).flatMap (eventsIn ls)).foldl opensAfter i.openFrom.isSome = true := by
  induction ls generalizing i number k with
  | nil =>
    have hnone : (List.range k).flatMap (eventsIn []) = [] := by
      simp [eventsIn]
    rw [applyLines, contains_iff, exists_start_iff hopen (Nat.le_add_right number k), hnone]
    simp [eventsIn]
  | cons l ls ih =>
    obtain ⟨hopens, hstate, hcovers⟩ := coversUpTo_foldl hopen (directives l)
    set i' := (directives l).foldl (apply number) i with hi'
    have hopens' : i'.OpensBy (number + 1) :=
      fun start hstart => (hopens start hstart).trans (Nat.le_succ number)
    rw [applyLines, ← hi']
    cases k with
    | zero =>
      -- The line itself: what follows does not reach back to it.
      have hnumber : i.CoversUpTo number number ↔ i.Settled number ∨ i.openFrom.isSome = true := by
        rw [← exists_start_iff hopen le_rfl, ← contains_iff, contains_iff_coversUpTo le_rfl]
      have hhere : eventsIn (l :: ls) 0 = directives l := rfl
      simp only [Nat.add_zero, hhere]
      rw [contains_applyLines_of_lt hopens' (Nat.lt_succ_self number),
        contains_iff_coversUpTo le_rfl, hcovers, hnumber]
      simp
      tauto
    | succ j =>
      -- What the line does reaches a later one as a mark on the next line or as an open range.
      have hsettled : i'.Settled (number + 1 + j) ↔ i.Settled (number + 1 + j) ∨
          j = 0 ∧ .ignoreNextLine ∈ directives l := by
        have hup := hcovers (number + 1 + j)
        have hbehind : ¬number + 1 + j ≤ number := by omega
        have hne : ¬number + 1 + j = number := by omega
        simpa [CoversUpTo, hbehind, hne] using hup
      have hflat : (List.range (j + 1)).flatMap (eventsIn (l :: ls)) =
          directives l ++ (List.range j).flatMap (eventsIn ls) := by
        rw [List.range_succ_eq_map, List.flatMap_cons, List.flatMap_map]
        rfl
      have hthere : eventsIn (l :: ls) (j + 1) = eventsIn ls j := rfl
      have hnumber : number + (j + 1) = number + 1 + j := by omega
      have hnext : (∃ m, j + 1 = m + 1 ∧ .ignoreNextLine ∈ eventsIn (l :: ls) m) ↔
          j = 0 ∧ .ignoreNextLine ∈ directives l ∨
            ∃ m, j = m + 1 ∧ .ignoreNextLine ∈ eventsIn ls m := by
        cases j with
        | zero => simp [eventsIn]
        | succ m => simp [eventsIn]
      rw [hnumber, ih hopens' j, hsettled, hflat, List.foldl_append, ← hstate, hthere, hnext]
      simp only [or_assoc, or_left_comm]

end Ignores

/-- The directives of a line are found by its number. -/
theorem isEventsOn_eventsOn (s : List Char) (n : Nat) : IsEventsOn s n (eventsOn s n) := by
  cases n with
  | zero =>
    refine .inr ⟨⟨fun l => ?_⟩, rfl⟩
    have hnumber := l.number_eq
    omega
  | succ k =>
    have hevents : eventsOn s (k + 1) = (lines s)[k]?.elim [] directives := rfl
    rw [hevents]
    cases hline : (lines s)[k]? with
    | none =>
      refine .inr ⟨⟨fun l => ?_⟩, rfl⟩
      rw [Text.getElem?_lines_iff.2 ⟨l, rfl⟩] at hline
      cases hline
    | some line =>
      obtain ⟨l, hl⟩ := Text.getElem?_lines_iff.1 hline
      exact .inl ⟨l, events_iff.2 (by rw [hl]; rfl)⟩

/-- **What directives let through**, line by line: a line with a directive for it, a line behind one
with a directive for the next line, a line before which a range is open, and a line with a directive
that opens one. -/
theorem contains_ofSource_iff_events (s : List Char) (n : Nat) :
    (∀ m, IsEventsOn s m (eventsOn s m)) ∧
      ((Ignores.ofSource s).contains n = true ↔
        .ignoreLine ∈ eventsOn s n ∨ .ignoreNextLine ∈ eventsOn s (n - 1) ∨
          isOpenBefore s n = true ∨ .disable ∈ eventsOn s n) := by
  refine ⟨isEventsOn_eventsOn s, ?_⟩
  have hopen : Ignores.OpensBy {} 1 := nofun
  cases n with
  | zero =>
    rw [Ignores.ofSource, Ignores.contains_applyLines_of_lt hopen (by omega)]
    simp [Ignores.contains, eventsOn, isOpenBefore]
  | succ k =>
    have hbefore : isOpenBefore s (k + 1) =
        ((List.range k).flatMap (eventsIn (lines s))).foldl opensAfter false := by
      rw [isOpenBefore, List.range_succ_eq_map, List.flatMap_cons, List.flatMap_map]
      rfl
    have hnext : (∃ j, k = j + 1 ∧ .ignoreNextLine ∈ eventsIn (lines s) j) ↔
        .ignoreNextLine ∈ eventsOn s k := by
      cases k with
      | zero => simp [eventsOn]
      | succ j => simp [eventsOn]
    rw [Ignores.ofSource, Nat.add_comm k 1, Ignores.contains_applyLines hopen, hnext,
      Nat.add_comm 1 k, Nat.add_sub_cancel, hbefore]
    simp only [Ignores.Settled, List.not_mem_nil, false_and, exists_false, or_self, false_or,
      Option.isSome_none, eventsOn]
    tauto

end Untranslated
