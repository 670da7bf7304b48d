import Untranslated.Scan

/-!
# Command lines in any order

A command line is a row of pieces: files, flags, and options with their values, which stand in the
same word or in the next one. Two dashes and more files may end it. An option whose value stands in
the next word takes effect only when something else is read, so a place in the line is told by the
arguments that it settles to (`Settles`): each piece adds to these what it says (`words_piece`),
whatever was read before it and whatever comes after it.

* `parse_line`: what a line with no piece given twice is read as.
* `arguments_congr`: the order of pieces does not matter, only that of files.
* `parse_in_any_order`: with it, what is asked of `git`.
-/

namespace Untranslated

namespace CommandLine

/-! ### Lines -/

/-- A flag as it is written. -/
inductive FlagWord
  | diff
  | diffOnly
  | staged
  | verbose
  | verboseLetter
  deriving DecidableEq, Repr

namespace FlagWord

def text : FlagWord → String
  | diff => "--diff"
  | diffOnly => "--diff-only"
  | staged => "--staged"
  | verbose => "--verbose"
  | verboseLetter => "-v"

/-- What it stands for. -/
def flag : FlagWord → Flag
  | diff | diffOnly => .diff
  | staged => .staged
  | verbose | verboseLetter => .verbose

end FlagWord

/-- An option that takes a value, as it is written. -/
def ValueOption.text : ValueOption → String
  | base => "--base"
  | head => "--head"

/-- A part of a command line. -/
inductive Piece
  | file (name : String)
  | flag (word : FlagWord)
  /-- The value is joined to the option by `=`, or is the next word. -/
  | value (option : ValueOption) (v : String) (joined : Bool)
  deriving DecidableEq, Repr

/-- What may be given once. -/
inductive Slot
  | flag (flag : Flag)
  | value (option : ValueOption)
  deriving DecidableEq, Repr

/-- What a piece says that is no file, however it is written. -/
inductive Wish
  | flag (flag : Flag)
  | value (option : ValueOption) (v : String)
  deriving DecidableEq, Repr

namespace Piece

/-- The words that it is written with. -/
def words : Piece → List String
  | file name => [name]
  | flag word => [word.text]
  | value option v true => [option.text ++ "=" ++ v]
  | value option v false => [option.text, v]

def slot? : Piece → Option Slot
  | file _ => none
  | flag word => some (.flag word.flag)
  | value option _ _ => some (.value option)

def wish? : Piece → Option Wish
  | file _ => none
  | flag word => some (.flag word.flag)
  | value option v _ => some (.value option v)

def file? : Piece → Option String
  | file name => some name
  | _ => none

/-- What it has that could be taken for an option: a file or a value. -/
def argument? : Piece → Option String
  | file name => some name
  | flag _ => none
  | value _ v _ => some v

/-- The value that it gives to an option. -/
def value? (option : ValueOption) : Piece → Option String
  | value o v _ => if o = option then some v else none
  | _ => none

def raises (flag : Flag) : Piece → Bool
  | .flag word => word.flag = flag
  | _ => false

end Piece

/-- A word that is no option: it is not empty and does not begin with a dash. -/
def IsPlain (word : String) : Prop :=
  word ≠ "" ∧ word.toList.head? ≠ some '-'

instance : DecidablePred IsPlain := fun _ => inferInstanceAs (Decidable (_ ∧ _))

/-- A command line: pieces and, behind two dashes, more files. -/
structure Line where
  pieces : List Piece
  trailing : Option (List String) := none
  deriving DecidableEq, Repr

namespace Line

variable (l : Line)

def trailingWords : List String :=
  l.trailing.elim [] ("--" :: ·)

/-- The words that it is written with. -/
def words : List String :=
  l.pieces.flatMap Piece.words ++ l.trailingWords

/-- Its files, in order. -/
def files : List String :=
  l.pieces.filterMap Piece.file? ++ l.trailing.getD []

/-- What it says besides its files. -/
def wishes : List Wish :=
  l.pieces.filterMap Piece.wish?

def raises (flag : Flag) : Bool :=
  l.pieces.any (·.raises flag)

/-- The value of an option. -/
def value? (option : ValueOption) : Option String :=
  l.pieces.findSome? (·.value? option)

/-- What it asks for. -/
def arguments : Arguments where
  files := l.files
  diff := l.raises .diff
  staged := l.raises .staged
  base := l.value? .base
  head := l.value? .head
  verbose := l.raises .verbose

/-- Files and values are no options, and nothing is given twice. What stands behind two dashes may
begin with a dash. -/
structure WellFormed : Prop where
  plain : ∀ w ∈ l.pieces.filterMap Piece.argument?, IsPlain w
  once : (l.pieces.filterMap Piece.slot?).Nodup

end Line

/-! ### What a piece adds -/

variable {a : Arguments} {s : State} {p : Piece} {ps : List Piece} {l : Line}

/-- The arguments have been told what may be given once. -/
def has (a : Arguments) : Slot → Bool
  | .flag .diff => a.diff
  | .flag .staged => a.staged
  | .flag .verbose => a.verbose
  | .flag _ => false
  | .value .base => a.base.isSome
  | .value .head => a.head.isSome

/-- The arguments and what a piece says. -/
def add (a : Arguments) (p : Piece) : Arguments where
  files := a.files ++ p.file?.toList
  diff := a.diff || p.raises .diff
  staged := a.staged || p.raises .staged
  base := a.base.or (p.value? .base)
  head := a.head.or (p.value? .head)
  verbose := a.verbose || p.raises .verbose

theorem has_add (a : Arguments) (p : Piece) (slot : Slot) :
    has (add a p) slot = (has a slot || p.slot? == some slot) := by
  cases p with
  | file name => cases slot with
    | flag f => cases f <;> simp [has, add, Piece.raises, Piece.slot?]
    | value o => cases o <;> simp [has, add, Piece.value?, Piece.slot?]
  | flag word => cases slot with
    | flag f => cases f <;> cases word <;> simp [has, add, Piece.raises, Piece.slot?, FlagWord.flag]
    | value o => cases o <;> simp [has, add, Piece.value?, Piece.slot?]
  | value option v joined => cases slot with
    | flag f => cases f <;> simp [has, add, Piece.raises, Piece.slot?]
    | value o => cases o <;> cases option <;> simp [has, add, Piece.value?, Piece.slot?]

/-- What a row of pieces adds up to. -/
theorem foldl_add (a : Arguments) (ps : List Piece) :
    ps.foldl add a =
      { files := a.files ++ ps.filterMap Piece.file?
        diff := a.diff || ps.any (·.raises .diff)
        staged := a.staged || ps.any (·.raises .staged)
        base := a.base.or (ps.findSome? (·.value? .base))
        head := a.head.or (ps.findSome? (·.value? .head))
        verbose := a.verbose || ps.any (·.raises .verbose) } := by
  induction ps generalizing a with
  | nil => simp
  | cons p ps ih =>
    rw [List.foldl_cons, ih]
    have hfiles : (p :: ps).filterMap Piece.file? = p.file?.toList ++ ps.filterMap Piece.file? := by
      cases p <;> rfl
    have hvalue (option : ValueOption) : (p :: ps).findSome? (·.value? option) =
        (p.value? option).or (ps.findSome? (·.value? option)) := by
      cases h : p.value? option <;> simp [h]
    simp [add, hfiles, hvalue, Bool.or_assoc, Option.or_assoc]

/-! ### What a place settles to -/

/-- The arguments at a place, once a pending option takes effect; it has its value. -/
structure Settles (s : State) (a : Arguments) : Prop where
  settle_eq : settle s = .ok { arguments := a }
  awaits : s.awaitsValue = false

theorem settles_start (a : Arguments) : Settles { arguments := a } a :=
  ⟨rfl, rfl⟩

theorem file_eq (h : Settles s a) (name : String) :
    file s name = .ok { arguments := add a (.file name) } := by
  rw [file, h.settle_eq]
  simp [add, Piece.file?, Piece.raises, Piece.value?, bind, Except.bind, pure, Except.pure]

theorem plain_eq (h : Settles s a) (name : String) :
    plain s name = .ok { arguments := add a (.file name) } := by
  rw [← file_eq h, plain, h.awaits]
  rcases s.pending with _ | ⟨option, v⟩ <;> rfl

theorem raise_eq (h : Settles s a) (word : FlagWord) (hnew : has a (.flag word.flag) = false) :
    raise s word.flag = .ok { arguments := add a (.flag word) } := by
  rw [raise, h.settle_eq]
  cases word <;>
    simp_all [has, add, FlagWord.flag, Piece.file?, Piece.raises, Piece.value?, bind, Except.bind]

theorem assign_eq (option : ValueOption) (v : String) (joined : Bool)
    (hnew : has a (.value option) = false) :
    assign a option v = .ok (add a (.value option v joined)) := by
  cases option <;>
    simp_all [has, assign, add, Piece.file?, Piece.raises, Piece.value?]

/-! ### Words -/

theorem words_plain {w : String} (hw : IsPlain w) (s : State) (rest : List String) :
    words s (w :: rest) = plain s w >>= (words · rest) := by
  have hhead := hw.2
  rw [words]
  split <;> simp_all

theorem words_long {w : String} {name : List Char} (hw : w.toList = '-' :: '-' :: name)
    (hname : name ≠ []) (s : State) (rest : List String) :
    words s (w :: rest) = long s name >>= (words · rest) := by
  obtain ⟨c, cs, rfl⟩ := List.exists_cons_of_ne_nil hname
  rw [words, hw]
  rfl

theorem words_flag (word : FlagWord) (s : State) (rest : List String) :
    words s (word.text :: rest) = raise s word.flag >>= (words · rest) := by
  cases word with
  | verboseLetter =>
    have hshort : short s ['v'] = raise s .verbose := by
      simp only [short, shortFlag?]
      cases raise s .verbose <;> rfl
    exact congrArg (· >>= (words · rest)) hshort
  | _ => rfl

/-- The option that waits for its value. -/
theorem words_option (h : Settles s a) (option : ValueOption) (rest : List String) :
    words s (option.text :: rest) =
      words { arguments := a, pending := some (option, none), awaitsValue := true } rest := by
  have hlong : words s (option.text :: rest) =
      (settle s >>= fun s =>
        pure { s with pending := some (option, none), awaitsValue := true }) >>=
          (words · rest) := by
    cases option <;> rfl
  rw [hlong, h.settle_eq]
  rfl

theorem long_joined (option : ValueOption) (v : List Char) (s : State) :
    long s (option.text.toList.drop 2 ++ '=' :: v) = settle s >>= fun s => do
      return { s with arguments := ← assign s.arguments option (String.ofList v) } := by
  cases option <;> simp [long, ValueOption.text, longOption?]

theorem words_joined (h : Settles s a) {option : ValueOption} {v : String}
    (hnew : has a (.value option) = false) (rest : List String) :
    words s ((option.text ++ "=" ++ v) :: rest) =
      words { arguments := add a (.value option v true) } rest := by
  have htext : (option.text ++ "=" ++ v).toList =
      '-' :: '-' :: (option.text.toList.drop 2 ++ '=' :: v.toList) := by
    cases option <;> simp [ValueOption.text]
  rw [words_long htext (by simp), long_joined, h.settle_eq, String.ofList_toList]
  simp [assign_eq option v true hnew, bind, Except.bind, pure, Except.pure]

/-- **What a piece does**, whatever was read before it and whatever comes after it. -/
theorem words_piece (h : Settles s a)
    (hplain : ∀ w, p.argument? = some w → IsPlain w)
    (hnew : ∀ slot, p.slot? = some slot → has a slot = false) :
    ∃ s', Settles s' (add a p) ∧ ∀ rest, words s (p.words ++ rest) = words s' rest := by
  match p with
  | .file name =>
    refine ⟨_, settles_start _, fun rest => ?_⟩
    rw [Piece.words, List.singleton_append, words_plain (hplain name rfl), plain_eq h]
    rfl
  | .flag word =>
    refine ⟨_, settles_start _, fun rest => ?_⟩
    rw [Piece.words, List.singleton_append, words_flag, raise_eq h word (hnew _ rfl)]
    rfl
  | .value option v true =>
    refine ⟨_, settles_start _, fun rest => ?_⟩
    rw [Piece.words, List.singleton_append, words_joined h (hnew _ rfl)]
  | .value option v false =>
    -- The value is read but has not taken effect.
    refine ⟨{ arguments := a, pending := some (option, some v) }, ⟨?_, rfl⟩, fun rest => ?_⟩
    · simp [settle, assign_eq option v false (hnew _ rfl), bind, Except.bind, pure, Except.pure]
    · rw [Piece.words, List.cons_append, words_option h, List.singleton_append,
        words_plain (hplain v rfl)]
      rfl

/-! ### Lines -/

theorem words_pieces (h : Settles s a)
    (hplain : ∀ w ∈ ps.filterMap Piece.argument?, IsPlain w)
    (hnew : ∀ slot ∈ ps.filterMap Piece.slot?, has a slot = false)
    (honce : (ps.filterMap Piece.slot?).Nodup) :
    ∃ s', Settles s' (ps.foldl add a) ∧
      ∀ rest, words s (ps.flatMap Piece.words ++ rest) = words s' rest := by
  induction ps generalizing s a with
  | nil => exact ⟨s, h, fun rest => rfl⟩
  | cons p ps ih =>
    obtain ⟨s₁, h₁, hwords₁⟩ := words_piece (p := p) h
      (fun w hw => hplain w (List.mem_filterMap.2 ⟨p, List.mem_cons_self, hw⟩))
      (fun slot hslot => hnew slot (List.mem_filterMap.2 ⟨p, List.mem_cons_self, hslot⟩))
    rw [List.filterMap_cons] at honce hnew
    have hnew₁ : ∀ slot ∈ ps.filterMap Piece.slot?, has (add a p) slot = false := by
      intro slot hslot
      rw [has_add, Bool.or_eq_false_iff, beq_eq_false_iff_ne]
      cases hp : p.slot? with
      | none =>
        rw [hp] at hnew
        exact ⟨hnew slot hslot, nofun⟩
      | some own =>
        rw [hp] at honce hnew
        refine ⟨hnew slot (List.mem_cons_of_mem own hslot), ?_⟩
        rintro ⟨⟩
        exact (List.nodup_cons.1 honce).1 hslot
    have honce₁ : (ps.filterMap Piece.slot?).Nodup := by
      cases hp : p.slot? <;> simp_all
    have hplain₁ : ∀ w ∈ ps.filterMap Piece.argument?, IsPlain w :=
      fun w hw => hplain w (((List.sublist_cons_self p ps).filterMap _).subset hw)
    obtain ⟨s', h', hwords⟩ := ih h₁ hplain₁ hnew₁ honce₁
    refine ⟨s', h', fun rest => ?_⟩
    rw [List.flatMap_cons, List.append_assoc, hwords₁, hwords]

theorem add_file (a : Arguments) (name : String) :
    add a (.file name) = { a with files := a.files ++ [name] } := by
  simp [add, Piece.file?, Piece.raises, Piece.value?]

theorem foldlM_file (h : Settles s a) (names : List String) :
    ∃ s', Settles s' { a with files := a.files ++ names } ∧ names.foldlM file s = .ok s' := by
  induction names generalizing s a with
  | nil => exact ⟨s, by simpa using h, rfl⟩
  | cons name names ih =>
    obtain ⟨s', h', heq⟩ := ih (settles_start (add a (.file name)))
    refine ⟨s', by simpa [add_file] using h', ?_⟩
    rw [List.foldlM_cons, file_eq h]
    exact heq

theorem words_trailing (h : Settles s a) (l : Line) :
    words s l.trailingWords =
      .ok { arguments := { a with files := a.files ++ l.trailing.getD [] } } := by
  cases htrailing : l.trailing with
  | none => simpa [Line.trailingWords, htrailing, words] using h.settle_eq
  | some names =>
    obtain ⟨s', h', heq⟩ := foldlM_file h names
    have hdashes : words s ("--" :: names) = names.foldlM file s >>= settle := rfl
    simp only [Line.trailingWords, htrailing, Option.elim_some, Option.getD_some]
    rw [hdashes, heq]
    exact h'.settle_eq

/-- **What a line with no piece given twice is read as.** -/
theorem parse_line (h : l.WellFormed) : parse l.words = .ok l.arguments := by
  obtain ⟨s, hs, hwords⟩ := words_pieces (settles_start {}) h.plain
    (fun slot _ => by cases slot with
      | flag f => cases f <;> rfl
      | value o => cases o <;> rfl) h.once
  rw [parse, Line.words, hwords, words_trailing hs, foldl_add]
  simp [Except.map, Line.arguments, Line.files, Line.raises, Line.value?]

/-! ### The order of pieces -/

theorem raises_eq_true_iff {flag : Flag} : l.raises flag = true ↔ .flag flag ∈ l.wishes := by
  rw [Line.raises, List.any_eq_true, Line.wishes, List.mem_filterMap]
  refine exists_congr fun p => and_congr_right fun _ => ?_
  cases p <;> simp [Piece.raises, Piece.wish?]

theorem wish?_eq_value_iff {option : ValueOption} {v : String} :
    p.wish? = some (.value option v) ↔ p.value? option = some v := by
  cases p <;> simp [Piece.wish?, Piece.value?]

theorem slot?_of_value? {option : ValueOption} {v : String} (h : p.value? option = some v) :
    p.slot? = some (.value option) := by
  cases p <;> simp_all [Piece.slot?, Piece.value?]

/-- An option has the value that is given anywhere in the line. -/
theorem findSome?_eq_of_mem (honce : (ps.filterMap Piece.slot?).Nodup) {option : ValueOption}
    {v : String} (hp : p ∈ ps) (hv : p.value? option = some v) :
    ps.findSome? (·.value? option) = some v := by
  induction ps with
  | nil => cases hp
  | cons q qs ih =>
    rcases List.mem_cons.1 hp with rfl | hp
    · rw [List.findSome?_cons, hv]
    · have hslot := slot?_of_value? hv
      rw [List.findSome?_cons]
      cases hq : q.value? option with
      | none => exact ih (honce.sublist ((List.sublist_cons_self q qs).filterMap _)) hp
      | some w =>
        rw [List.filterMap_cons_some (slot?_of_value? hq)] at honce
        exact absurd (List.mem_filterMap.2 ⟨p, hp, hslot⟩) (List.nodup_cons.1 honce).1

theorem value?_eq_some_iff (h : l.WellFormed) {option : ValueOption} {v : String} :
    l.value? option = some v ↔ .value option v ∈ l.wishes := by
  rw [Line.value?, Line.wishes, List.mem_filterMap]
  constructor
  · intro hv
    obtain ⟨p, hp, hv⟩ := List.exists_of_findSome?_eq_some hv
    exact ⟨p, hp, wish?_eq_value_iff.2 hv⟩
  · rintro ⟨p, hp, hv⟩
    exact findSome?_eq_of_mem h.once hp (wish?_eq_value_iff.1 hv)

/-- Two lines say the same in another order or with other words: the same wishes, and the same
files, these in order. -/
structure Line.Reorders (l' l : Line) : Prop where
  wishes : l'.wishes.Perm l.wishes
  files : l'.files = l.files

/-- **The order of pieces does not matter**, only that of files. -/
theorem arguments_congr {l' : Line} (h' : l'.WellFormed) (h : l.WellFormed) (hr : l'.Reorders l) :
    l'.arguments = l.arguments := by
  have hraises (flag : Flag) : l'.raises flag = l.raises flag := by
    rw [Bool.eq_iff_iff, raises_eq_true_iff, raises_eq_true_iff]
    exact hr.wishes.mem_iff
  have hvalue (option : ValueOption) : l'.value? option = l.value? option := by
    refine Option.ext fun v => ?_
    rw [value?_eq_some_iff h', value?_eq_some_iff h]
    exact hr.wishes.mem_iff
  simp only [Line.arguments, hr.files, hraises, hvalue]

/-! ### What is asked of `git` -/

/-- The files come last, behind two dashes; no other argument is two dashes. -/
theorem gitArguments_eq (r : DiffRequest) :
    ∃ front, r.gitArguments = front ++ (if r.files = [] then [] else "--" :: r.files) ∧
      "--" ∉ front := by
  have hrange (base head : String) : "--" ≠ base ++ "..." ++ head := by
    intro h
    have hlength := congrArg String.length h
    rw [String.length_append, String.length_append] at hlength
    have : "--".length = 2 ∧ "...".length = 3 := by decide
    omega
  simp only [DiffRequest.gitArguments, List.isEmpty_iff]
  refine ⟨_, rfl, ?_⟩
  cases r.base <;> cases r.head <;> cases r.staged <;> simp [hrange]

/-- **Command lines may be written in any order.** A line is read, whatever stands between its
files and whatever a value could be taken for: its files in order, the flags and the values it
gives. Lines that say the same are read alike, so `git` is asked the same, and the files come last
and behind two dashes if there are any. -/
theorem parse_in_any_order (l : Line) (h : l.WellFormed) :
    ∃ a, parse l.words = .ok a ∧
      a.files = l.files ∧
      (a.diffOnly = true ↔ .flag .diff ∈ l.wishes ∨ .flag .staged ∈ l.wishes) ∧
      (a.staged = true ↔ .flag .staged ∈ l.wishes) ∧
      (∀ v, a.base = some v ↔ .value .base v ∈ l.wishes) ∧
      (∀ v, a.head = some v ↔ .value .head v ∈ l.wishes) ∧
      (∃ front, (DiffRequest.ofArguments a).gitArguments =
          front ++ (if l.files = [] then [] else "--" :: l.files) ∧ "--" ∉ front) ∧
      ∀ l' : Line, l'.WellFormed → l'.Reorders l → parse l'.words = .ok a := by
  refine ⟨l.arguments, parse_line h, rfl, ?_, raises_eq_true_iff, fun v => value?_eq_some_iff h,
    fun v => value?_eq_some_iff h, gitArguments_eq _, fun l' h' hr => ?_⟩
  · rw [Arguments.diffOnly, Bool.or_eq_true]
    exact or_congr raises_eq_true_iff raises_eq_true_iff
  · rw [parse_line h', arguments_congr h' h hr]

/-- Both spellings of a value, files between options, and a file that begins with a dash. -/
theorem parse_in_any_order_mixed :
    let l : Line :=
      { pieces := [.file "src/b.tsx", .value .base "main" true, .flag .verboseLetter,
          .value .head "a=b" false, .flag .diffOnly, .file "src/a.tsx"]
        trailing := some ["--staged"] }
    let l' : Line :=
      { pieces := [.flag .verbose, .value .head "a=b" true, .file "src/b.tsx", .flag .diff,
          .value .base "main" false]
        trailing := some ["src/a.tsx", "--staged"] }
    l.WellFormed ∧ l'.WellFormed ∧ l'.Reorders l ∧
      ∃ a, parse ["src/b.tsx", "--base=main", "-v", "--head", "a=b", "--diff-only", "src/a.tsx",
          "--", "--staged"] = .ok a ∧
        a.files = ["src/b.tsx", "src/a.tsx", "--staged"] ∧
        a.diffOnly = true ∧ a.staged = false ∧ a.base = some "main" ∧ a.head = some "a=b" ∧
        parse ["--verbose", "--head=a=b", "src/b.tsx", "--diff", "--base", "main", "--",
          "src/a.tsx", "--staged"] = .ok a := by
  intro l l'
  have h : l.WellFormed := ⟨by decide, by decide⟩
  have h' : l'.WellFormed := ⟨by decide, by decide⟩
  have hr : l'.Reorders l := ⟨by decide, rfl⟩
  obtain ⟨a, hparse, hfiles, hdiff, hstaged, hbase, hhead, -, hall⟩ := parse_in_any_order l h
  refine ⟨h, h', hr, a, hparse, hfiles, hdiff.2 (.inl (by decide)), ?_, (hbase _).2 (by decide),
    (hhead _).2 (by decide), hall l' h' hr⟩
  exact Bool.eq_false_iff.2 fun h => absurd (hstaged.1 h) (by decide)

end CommandLine

end Untranslated
