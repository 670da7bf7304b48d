/-!
# Options

The names an inspection goes by: which attributes are shown to users, which calls show their
arguments, which functions translate, and which texts are let through.

* `Options.isCheckedCall`: a call counts under its whole name or after an owner.
* `Options.isTranslation`: a name without dots also counts as the last part of a longer one.
-/

namespace Untranslated

/-- What stands after the last dot of a name. -/
def lastSegment (name : String) : String :=
  String.ofList (name.toList.reverse.takeWhile (· != '.')).reverse

/-- The name ends in a dot and `last`. -/
def endsInMember (name last : String) : Bool :=
  ('.' :: last.toList).isSuffixOf name.toList

/-- The names an inspection goes by. -/
structure Options where
  checkedAttributes : List String
  checkedCalls : List String
  translationFunctions : List String
  ignoreTexts : List String
  deriving DecidableEq, Repr

namespace Options

/-- The attribute is shown to users. -/
def isCheckedAttribute (o : Options) (name : String) : Bool :=
  o.checkedAttributes.contains name

/-- The call shows its arguments to users: `toast.error`, also as `this.toast.error`. -/
def isCheckedCall (o : Options) (callee : String) : Bool :=
  o.checkedCalls.any fun name => callee == name || endsInMember callee name

/-- The function translates: a name without dots stands for every member of that name. -/
def isTranslation (o : Options) (callee : String) : Bool :=
  o.translationFunctions.any fun name =>
    callee == name || (!name.toList.contains '.' && lastSegment callee == name)

end Options

end Untranslated
