import Untranslated.Config
import Untranslated.Proofs.MarkedLines

/-!
# Callees that are let through by name

Some rules let a literal through by the name of what it is an argument of, and they are asked of
the calls to look at as well. So a call that the options name is looked at in vain if it has such a
name.

* `Rule.exempts`: what a rule lets through by the name of a callee; `matches?_eq` says that a rule
  asks nothing else of the callee.
* `isExemptEntry_iff`: the entries of the options under which such callees are called.
* `first?_of_call`: **a literal in a call to look at is decided on as without the callee**, unless
  its callee is let through by name.
-/

namespace Untranslated

open Script (Dialect)

/-! ### Rules that look at the callee -/

/-- The candidate as an argument of nothing. -/
def Candidate.withoutCallee (c : Candidate) : Candidate :=
  { c with callee := none }

/-- The rule lets through what the callee is given, by its name. -/
def Rule.exempts (callee : String) : Rule → Bool
  | className => classHelpers.contains (lastSegment callee)
  | regexPattern => regexConstructors.contains callee ||
      (callee.toList.contains '.' && patternMethods.contains (lastSegment callee))
  | programmaticCall => isSilentCallee callee
  | _ => false

/-- **A rule sees no more of the callee** than whether it lets it through by name. -/
theorem Rule.matches?_eq (ignores : Ignores) (c : Candidate) (r : Rule) :
    r.matches? ignores c =
      (r.matches? ignores c.withoutCallee || c.callee.any fun name => r.exempts name) := by
  cases hcallee : c.callee with
  | none =>
    have hsame : c.withoutCallee = c := by
      rw [Candidate.withoutCallee, ← hcallee]
    simp [hsame]
  | some name =>
    cases r with
    | className =>
      simp [matches?, exempts, Candidate.isClassName, Candidate.method, Candidate.withoutCallee,
        hcallee, Bool.or_comm]
    | regexPattern =>
      simp only [matches?, exempts, Candidate.isRegexPattern, Candidate.withoutCallee, hcallee,
        Option.any_some, Option.any_none, Bool.or_false]
      ac_rfl
    | programmaticCall =>
      simp only [matches?, exempts, Candidate.isProgrammatic, Candidate.withoutCallee, hcallee,
        Option.any_some, Option.any_none, Bool.or_false]
      ac_rfl
    | _ =>
      simp [matches?, exempts, Candidate.isWordless, Candidate.isHiddenAttribute,
        Candidate.isDateFormat, Candidate.withoutCallee]

/-- Some rule lets through what the callee is given, by its name. -/
def isExemptCallee (callee : String) : Bool :=
  Rule.all.any fun r => r.exempts callee

/-- **No rule lets a candidate through** if none does without the callee, and none by its name. -/
theorem Rule.first?_eq_none_iff_withoutCallee (ignores : Ignores) (c : Candidate) :
    first? ignores c = none ↔
      first? ignores c.withoutCallee = none ∧ c.callee.any isExemptCallee = false := by
  have hexempt : c.callee.any isExemptCallee = false ↔
      ∀ r : Rule, (c.callee.any fun name => r.exempts name) = false := by
    cases c.callee <;> simp [isExemptCallee, mem_all]
  rw [first?_eq_none_iff, first?_eq_none_iff, hexempt, ← forall_and]
  refine forall_congr' fun r => ?_
  rw [matches?_eq, Bool.or_eq_false_iff]

/-! ### Names after an owner -/

/-- The callee is called under the entry: by this name, or as a member of this name. -/
def isCalledAs (callee entry : String) : Bool :=
  callee == entry || endsInMember callee entry

theorem isCheckedCall_iff {o : Options} {callee : String} :
    o.isCheckedCall callee = true ↔ ∃ entry ∈ o.checkedCalls, isCalledAs callee entry = true :=
  List.any_eq_true

theorem isCalledAs_iff {callee entry : String} : isCalledAs callee entry = true ↔
    callee = entry ∨ ∃ owner, callee.toList = owner ++ '.' :: entry.toList := by
  rw [isCalledAs, endsInMember, Bool.or_eq_true, beq_iff_eq, List.isSuffixOf_iff_suffix]
  exact or_congr_right (exists_congr fun owner => eq_comm)

theorem isCalledAs_self (name : String) : isCalledAs name name = true :=
  isCalledAs_iff.2 (.inl rfl)

/-- What is called under an entry ends as the entry does. -/
theorem lastSegment_of_isCalledAs {callee entry : String} (h : isCalledAs callee entry = true) :
    lastSegment callee = lastSegment entry := by
  obtain rfl | ⟨owner, h⟩ := isCalledAs_iff.1 h
  · rfl
  have hreverse : callee.toList.reverse = entry.toList.reverse ++ '.' :: owner.reverse := by
    simp [h]
  rw [lastSegment, hreverse, takeWhile_append_cons rfl, lastSegment]

/-- Words `new` stand before the owner. -/
theorem withoutNew_append (owner entry : List Char) :
    withoutNew (owner ++ '.' :: entry) = withoutNew owner ++ '.' :: entry := by
  fun_induction withoutNew owner with
  | case1 rest ih => rw [← ih]; rfl
  | case2 owner hnot =>
    rw [withoutNew]
    intro rest heq
    -- The word would end in the owner, or the dot would be one of its letters.
    rcases owner with _ | ⟨a, _ | ⟨b, _ | ⟨c, _ | ⟨d, owner⟩⟩⟩⟩
    case cons.cons.cons.cons =>
      simp only [List.cons_append, List.cons.injEq] at heq
      obtain ⟨rfl, rfl, rfl, rfl, -⟩ := heq
      exact hnot owner rfl
    all_goals simp at heq

theorem withoutNew_of_not_mem {name : List Char} (h : ' ' ∉ name) : withoutNew name = name := by
  unfold withoutNew
  split
  · exact absurd (by simp) h
  · rfl

/-- An error is called under the name of an error. -/
theorem isErrorName_of_isCalledAs {callee entry : String} (h : isCalledAs callee entry = true)
    (herror : isErrorName callee = true) : isErrorName entry = true := by
  obtain rfl | ⟨owner, h⟩ := isCalledAs_iff.1 h
  · exact herror
  unfold isErrorName at herror ⊢
  rw [h, withoutNew_append] at herror
  obtain ⟨hends, hall⟩ := Bool.and_eq_true_iff.1 herror
  have hletters : entry.toList.all (fun c => Text.isAlphanumeric c || c == '.') = true := by
    simp only [List.all_append, List.all_cons, Bool.and_eq_true] at hall
    exact hall.2.2
  have hblank : ' ' ∉ entry.toList := by
    intro hmem
    have hletter := List.all_eq_true.1 hletters ' ' hmem
    revert hletter
    decide
  have hsuffix : "Error".toList <:+ entry.toList := by
    have hmember : '.' :: entry.toList <:+ withoutNew owner ++ '.' :: entry.toList :=
      List.suffix_append _ _
    have hdot : '.' ∉ "Error".toList := by decide
    rcases List.suffix_or_suffix_of_suffix (List.isSuffixOf_iff_suffix.1 hends) hmember with
      hshort | hlong
    · rcases List.suffix_cons_iff.1 hshort with heq | hsuffix
      · exact absurd (heq ▸ List.mem_cons_self) hdot
      · exact hsuffix
    · exact absurd (hlong.subset List.mem_cons_self) hdot
  rw [withoutNew_of_not_mem hblank]
  exact Bool.and_eq_true_iff.2 ⟨List.isSuffixOf_iff_suffix.2 hsuffix, hletters⟩

/-! ### Entries with such callees -/

/-- What is called under the entry may be let through by name: for the end of the name, for the name
of an error, or for a name that is called so. -/
def isExemptEntry (entry : String) : Bool :=
  (classHelpers ++ patternMethods ++ dateMethods ++ searchMethods).contains (lastSegment entry) ||
    isErrorName entry || (regexConstructors ++ silentCalls).any fun name => isCalledAs name entry

section Entries

variable {entry : String}

theorem exists_isCalledAs_lastSegment {names : List String} :
    (∃ callee, isCalledAs callee entry = true ∧ lastSegment callee ∈ names) ↔
      lastSegment entry ∈ names := by
  constructor
  · rintro ⟨callee, hcalled, h⟩
    exact lastSegment_of_isCalledAs hcalled ▸ h
  · exact fun h => ⟨entry, isCalledAs_self entry, h⟩

/-- Every name is called with a dot as well. -/
theorem exists_isCalledAs_method {names : List String} :
    (∃ callee, isCalledAs callee entry = true ∧ '.' ∈ callee.toList ∧ lastSegment callee ∈ names) ↔
      lastSegment entry ∈ names := by
  constructor
  · rintro ⟨callee, hcalled, -, h⟩
    exact lastSegment_of_isCalledAs hcalled ▸ h
  · intro h
    have htext : ("this." ++ entry).toList = "this".toList ++ '.' :: entry.toList := by
      rw [String.toList_append]
      rfl
    have hcalled : isCalledAs ("this." ++ entry) entry = true :=
      isCalledAs_iff.2 (.inr ⟨_, htext⟩)
    refine ⟨_, hcalled, ?_, (lastSegment_of_isCalledAs hcalled).symm ▸ h⟩
    rw [htext]
    exact List.mem_append_right _ List.mem_cons_self

theorem exists_isCalledAs_error :
    (∃ callee, isCalledAs callee entry = true ∧ isErrorName callee = true) ↔
      isErrorName entry = true := by
  constructor
  · rintro ⟨callee, hcalled, h⟩
    exact isErrorName_of_isCalledAs hcalled h
  · exact fun h => ⟨entry, isCalledAs_self entry, h⟩

/-- **The entries under which something is called that is let through by name.** -/
theorem exists_isExemptCallee_iff :
    (∃ callee, isCalledAs callee entry = true ∧ isExemptCallee callee = true) ↔
      isExemptEntry entry = true := by
  -- Each table is asked for the end of the name or for all of it, so it has entries of its own.
  have hcallee : ∀ callee, isExemptCallee callee = true ↔
      lastSegment callee ∈ classHelpers ∨ callee ∈ regexConstructors ∨
        ('.' ∈ callee.toList ∧ lastSegment callee ∈ patternMethods) ∨ callee ∈ silentCalls ∨
        lastSegment callee ∈ dateMethods ∨ isErrorName callee = true ∨
        '.' ∈ callee.toList ∧ lastSegment callee ∈ searchMethods := by
    intro callee
    simp only [isExemptCallee, Rule.all, Rule.exempts, isSilentCallee, List.any_cons,
      List.any_nil, Bool.false_or, Bool.or_false, Bool.or_eq_true, Bool.and_eq_true,
      List.contains_iff_mem, or_assoc]
  have hnames : ∀ names : List String,
      (∃ callee, isCalledAs callee entry = true ∧ callee ∈ names) ↔
        ∃ name ∈ names, isCalledAs name entry = true :=
    fun names => exists_congr fun name => and_comm
  simp only [hcallee, and_or_left, exists_or, exists_isCalledAs_lastSegment,
    exists_isCalledAs_method, exists_isCalledAs_error, hnames, isExemptEntry, List.any_append,
    Bool.or_eq_true, List.contains_iff_mem, List.mem_append, List.any_eq_true]
  simp only [or_assoc, or_left_comm, or_comm]

end Entries

/-- The entries that stand for calls to look at by default are none of these. -/
theorem isExemptEntry_default :
    ∀ entry ∈ ({} : Config).checkedCalls, isExemptEntry entry = false := by
  decide +kernel

/-! ### Candidates in calls to look at -/

/-- What a traversal gives comes from something it goes through. -/
theorem exists_mem_of_mapM {α β : Type} {f : α → Option β} {xs : List α} {ys : List β} {y : β}
    (h : xs.mapM f = some ys) (hy : y ∈ ys) : ∃ x ∈ xs, f x = some y := by
  induction xs generalizing ys with
  | nil =>
    obtain rfl : [] = ys := Option.some.inj h
    cases hy
  | cons x xs ih =>
    rw [List.mapM_cons] at h
    obtain ⟨y', hx, h⟩ := Option.bind_eq_some_iff.1 h
    obtain ⟨ys', hxs, h⟩ := Option.bind_eq_some_iff.1 h
    obtain rfl : y' :: ys' = ys := Option.some.inj h
    rcases List.mem_cons.1 hy with rfl | hy
    · exact ⟨x, List.mem_cons_self, hx⟩
    · obtain ⟨x', hx', hfound⟩ := ih hxs hy
      exact ⟨x', List.mem_cons_of_mem _ hx', hfound⟩

section Calls

variable {o : Options}

/-- A literal counts for its call only if the call is one to look at. -/
theorem Scope.isCheckedCall_of_origin? {s : Scope} {tag : Option String} {origin : Origin}
    (h : s.origin? o tag = some origin) (hkind : origin.kind = .call) :
    origin.callee.any o.isCheckedCall = true := by
  unfold Scope.origin? at h
  split_ifs at h with hcall
  · obtain rfl := Option.some.inj h
    exact hcall
  -- What counts for its owner is of another kind.
  cases howner : s.owner with
  | code => simp [howner] at h
  | children =>
    rw [howner] at h
    obtain rfl := Option.some.inj h
    cases hkind
  | attributeValue name =>
    simp only [howner] at h
    split_ifs at h
    obtain rfl := Option.some.inj h
    cases hkind

theorem Script.Spot.isCheckedCall_of_literal? {x : Script.Spot} {y : Occurrence}
    (h : x.literal? o = some y) (hkind : y.origin.kind = .call) :
    y.origin.callee.any o.isCheckedCall = true := by
  unfold Script.Spot.literal? at h
  split at h
  case h_3 =>
    split_ifs at h
    obtain rfl := Option.some.inj h
    cases hkind
  case h_5 => cases h
  all_goals
    obtain ⟨origin, horigin, rfl⟩ := Option.map_eq_some_iff.1 h
    exact Scope.isCheckedCall_of_origin? horigin hkind

/-- A candidate has the kind and the callee of its literal. -/
theorem Occurrence.origin_of_candidate? {source read : List Char} {y : Occurrence} {c : Candidate}
    (h : y.candidate? source read = some (some c)) :
    c.kind = y.origin.kind ∧ c.callee = y.origin.callee := by
  unfold Occurrence.candidate? at h
  obtain ⟨⟨behind, rest⟩, -, h⟩ := Option.bind_eq_some_iff.1 h
  obtain ⟨⟨outer, after⟩, -, h⟩ := Option.bind_eq_some_iff.1 h
  dsimp only at h
  split_ifs at h with hblank
  · cases Option.some.inj h
  · obtain rfl := Option.some.inj (Option.some.inj h)
    exact ⟨rfl, rfl⟩

/-- **A candidate in a call to look at** has a callee that an entry of the options names. -/
theorem exists_entry_of_mem_candidates {dialect : Dialect} {s : List Char} {cs : List Candidate}
    {c : Candidate} (h : candidates o dialect s = .ok cs) (hc : c ∈ cs) (hkind : c.kind = .call) :
    ∃ callee, c.callee = some callee ∧
      ∃ entry ∈ o.checkedCalls, isCalledAs callee entry = true := by
  unfold candidates at h
  cases hread : Script.read dialect s with
  | error => simp [hread, bind, Except.bind] at h
  | ok t =>
    simp only [hread, bind, Except.bind] at h
    split at h
    case h_1 => cases h
    case h_2 found hfound =>
      obtain rfl := Except.ok.inj h
      obtain ⟨c', hc', rfl⟩ := List.mem_filterMap.1 (List.mem_mergeSort.1 hc)
      obtain ⟨y, hy, hcandidate⟩ := exists_mem_of_mapM hfound hc'
      rw [Script.occurrences_eq_readOrder] at hy
      obtain ⟨x, -, hx⟩ := List.mem_filterMap.1 hy
      obtain ⟨hkind', hcallee⟩ := Occurrence.origin_of_candidate? hcandidate
      have hcall := Script.Spot.isCheckedCall_of_literal? (Script.literal?_of_occurrence? hx)
        (hkind'.symm.trans hkind)
      obtain ⟨callee, hsome, hchecked⟩ := (Option.any_eq_true _ _).1 hcall
      exact ⟨callee, hcallee.trans hsome, isCheckedCall_iff.1 hchecked⟩

end Calls

/-- **A literal in a call to look at is decided on as without its callee**, unless the callee is let
through by name; which it can be only if all entries that name it are of that kind. -/
theorem first?_of_call (o : Options) {dialect : Dialect} {s : List Char} {cs : List Candidate}
    {c : Candidate} (h : candidates o dialect s = .ok cs) (hc : c ∈ cs) (hkind : c.kind = .call)
    (ignores : Ignores) :
    ∃ callee, c.callee = some callee ∧
      (∃ entry ∈ o.checkedCalls, isCalledAs callee entry = true) ∧
      (Rule.first? ignores c = none ↔
        Rule.first? ignores c.withoutCallee = none ∧ isExemptCallee callee = false) ∧
      ∀ entry ∈ o.checkedCalls, isCalledAs callee entry = true → isExemptEntry entry = false →
        (Rule.first? ignores c = none ↔ Rule.first? ignores c.withoutCallee = none) := by
  obtain ⟨callee, hcallee, hentry⟩ := exists_entry_of_mem_candidates h hc hkind
  have hdecided : Rule.first? ignores c = none ↔
      Rule.first? ignores c.withoutCallee = none ∧ isExemptCallee callee = false := by
    rw [Rule.first?_eq_none_iff_withoutCallee, hcallee, Option.any_some]
  refine ⟨callee, hcallee, hentry, hdecided, fun entry _ hcalled hexempt => ?_⟩
  have hcallee : isExemptCallee callee = false := by
    rw [Bool.eq_false_iff]
    intro hname
    rw [exists_isExemptCallee_iff.1 ⟨callee, hcalled, hname⟩] at hexempt
    cases hexempt
  rw [hdecided, and_iff_left hcallee]

/-- A script that shows a notice. -/
def noticeScript : List Char :=
  "this.toast.error('Hello world');".toList

/-- The notice is decided on as if it stood nowhere, and reported. -/
theorem first?_of_call_noticeScript : ∃ cs c,
    candidates ({} : Config).options .typedMarkup noticeScript = .ok cs ∧ c ∈ cs ∧
      c.kind = .call ∧ c.callee = some "this.toast.error" ∧ Rule.first? {} c = none := by
  have hfound : ((candidates ({} : Config).options .typedMarkup noticeScript).toOption.map
      fun cs => cs.map fun c => (c.kind, c.callee, Rule.first? {} c.withoutCallee)) =
      some [(.call, some "this.toast.error", none)] := by decide +kernel
  obtain ⟨cs, hcs, hmap⟩ := Option.map_eq_some_iff.1 hfound
  obtain ⟨c, rfl, hc⟩ := List.map_eq_singleton_iff.1 hmap
  simp only [Prod.mk.injEq] at hc
  obtain ⟨hkind, hcallee, hwithout⟩ := hc
  have hok := eq_ok_of_toOption hcs
  obtain ⟨callee, hcallee', -, -, hdecided⟩ :=
    first?_of_call ({} : Config).options hok List.mem_cons_self hkind {}
  obtain rfl : callee = "this.toast.error" := Option.some.inj (hcallee'.symm.trans hcallee)
  have hentry : "toast.error" ∈ ({} : Config).options.checkedCalls := by decide +kernel
  have hcalled : isCalledAs "this.toast.error" "toast.error" = true := by decide +kernel
  exact ⟨[c], c, hok, List.mem_cons_self, hkind, hcallee,
    (hdecided _ hentry hcalled (isExemptEntry_default _ hentry)).2 hwithout⟩

/-- A script that writes to a log. -/
def logScript : List Char :=
  "console.error('Hello world');".toList

/-- A call to look at whose callee writes logs: the literal is let through for its callee alone. -/
theorem first?_logScript :
    ((candidates ⟨[], ["console.error"], [], []⟩ .typedMarkup logScript).toOption.map fun cs =>
      cs.map fun c => (c.kind, Rule.first? {} c, Rule.first? {} c.withoutCallee)) =
      some [(.call, some .programmaticCall, none)] := by
  decide +kernel

end Untranslated
