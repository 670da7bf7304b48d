import Untranslated.Extraction
import Untranslated.Rule

/-!
# Classification

What an inspection reports of a script: the literals that are neither translated nor let
through.
-/

namespace Untranslated

open Text (trim)

/-- A text that a user sees and that is not translated. -/
structure Violation where
  /-- Its line, counted from 1. -/
  line : Nat
  text : List Char
  deriving DecidableEq, Repr

/-- A candidate with what was decided on it. -/
structure Verdict where
  candidate : Candidate
  /-- It is given to a function that translates. -/
  isTranslated : Bool
  /-- The rule that lets it through. -/
  rule : Option Rule
  deriving DecidableEq, Repr

/-- What is decided on a candidate. -/
def Candidate.verdict (o : Options) (ignores : Ignores) (c : Candidate) : Verdict :=
  ⟨c, c.callee.any o.isTranslation, Rule.first? ignores c⟩

/-- What is decided on each candidate of a script. -/
def verdicts (o : Options) (dialect : Script.Dialect) (source : List Char) :
    Except Script.Failure (List Verdict) := do
  let stripped ← Script.strip dialect source
  let found ← candidates o dialect stripped
  return found.map (Candidate.verdict o (.ofSource source))

/-- The candidate is reported. -/
def Verdict.isViolation (o : Options) (v : Verdict) : Bool :=
  !v.isTranslated && v.rule.isNone &&
    !o.ignoreTexts.contains (String.ofList v.candidate.text)

/-- What is reported of a script; with `only`, of these lines. -/
def classify (o : Options) (dialect : Script.Dialect) (source : List Char)
    (only : Option (List Nat)) : Except Script.Failure (List Violation) := do
  let found ← verdicts o dialect source
  let kept := found.filter fun v =>
    v.isViolation o && only.all (·.contains v.candidate.line)
  return (kept.map fun v => ⟨v.candidate.line, v.candidate.text⟩).mergeSort
    fun a b => a.line ≤ b.line

end Untranslated
