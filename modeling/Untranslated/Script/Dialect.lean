/-!
# Dialects

Which grammar a script is written in, decided by the extension of its name.
-/

namespace Untranslated.Script

/-- A grammar for scripts. -/
inductive Dialect
  /-- Types and markup. -/
  | typedMarkup
  /-- Types, where `<T>e` is a type assertion and never markup. -/
  | typed
  /-- Markup without types. -/
  | markup
  deriving DecidableEq, Repr

/-- Type annotations are part of the grammar. -/
def Dialect.hasTypes : Dialect → Bool
  | .typedMarkup | .typed => true
  | .markup => false

/-- Markup is part of the grammar. -/
def Dialect.hasMarkup : Dialect → Bool
  | .typedMarkup | .markup => true
  | .typed => false

/-- The dialect a file extension stands for; what is not plain is typed markup. -/
def Dialect.ofExtension : Option String → Dialect
  | some "ts" | some "mts" | some "cts" => .typed
  | some "js" | some "jsx" | some "mjs" | some "cjs" => .markup
  | _ => .typedMarkup

end Untranslated.Script
