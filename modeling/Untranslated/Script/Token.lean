/-!
# Lexemes

The kinds of lexeme a script is cut into, and the words and signs the grammar knows.
-/

namespace Untranslated.Script

/-- Why a lexeme cannot be read. -/
inductive LexicalFault
  | unexpectedCharacter
  | unterminatedString
  | unterminatedTemplate
  | unterminatedRegex
  | badEscape
  | badNumber
  | nameAfterNumber
  deriving DecidableEq, Repr

/-- A lexeme without its text. -/
inductive Token
  | endOfText
  /-- An identifier or keyword, with its escapes resolved. -/
  | word (spelling : String)
  | sign (spelling : String)
  | number
  | string
  | regex
  /-- The raw text of a template up to a substitution or the end; `escape` says where a
  malformed escape stands in it. -/
  | quasi (escape : Option Nat)
  | markupText
  /-- A lexeme that cannot be read. -/
  | bad (fault : LexicalFault)
  deriving DecidableEq, Repr

/-- Every sign, each before its own beginnings. -/
def signs : List String :=
  [">>>=", "...", "===", "!==", "**=", "<<=", ">>=", ">>>", "&&=", "||=", "??=", "=>", "==", "!=",
   "<=", ">=", "&&", "||", "??", "?.", "++", "--", "+=", "-=", "*=", "/=", "%=", "&=", "|=", "^=",
   "<<", ">>", "**", "\x7b", "\x7d", "(", ")", "[", "]", ";", ",", "<", ">", "+", "-", "*", "/",
   "%", "&", "|", "^", "!", "~", "?", ":", "=", ".", "@", "#"]

/-- The sign that opens a block, an object or a substitution. -/
def openBrace : String := "\x7b"

/-- The sign that closes a block, an object or a substitution. -/
def closeBrace : String := "\x7d"

/-- Words that are never identifiers. -/
def reservedWords : List String :=
  ["break", "case", "catch", "class", "const", "continue", "debugger", "default", "delete", "do",
   "else", "export", "extends", "false", "finally", "for", "function", "if", "import", "in",
   "instanceof", "new", "null", "return", "super", "switch", "this", "throw", "true", "try",
   "typeof", "var", "void", "while", "with"]

/-- Words that may name what is declared but cannot refer to it, since a script is a module. -/
def strictWords : List String :=
  ["await", "enum", "implements", "interface", "let", "package", "private", "protected", "public",
   "static", "yield"]

/-- Signs that assign. -/
def assignmentSigns : List String :=
  ["=", "+=", "-=", "*=", "/=", "%=", "**=", "<<=", ">>=", ">>>=", "&=", "|=", "^=", "&&=", "||=",
   "??="]

/-- How tightly a binary operator binds; `none` for what is no operator. -/
def precedence? : String → Option Nat
  | "??" => some 1
  | "||" => some 1
  | "&&" => some 2
  | "|" => some 3
  | "^" => some 4
  | "&" => some 5
  | "==" | "!=" | "===" | "!==" => some 6
  | "<" | "<=" | ">" | ">=" | "in" | "instanceof" => some 7
  | "<<" | ">>" | ">>>" => some 8
  | "+" | "-" => some 9
  | "*" | "/" | "%" => some 10
  | "**" => some 11
  | _ => none

namespace Token

/-- The token is this sign. -/
def isSign (t : Token) (s : String) : Bool :=
  match t with
  | sign u => u == s
  | _ => false

/-- The token is this word. -/
def isWord (t : Token) (s : String) : Bool :=
  match t with
  | word u => u == s
  | _ => false

/-- The token is an identifier or any keyword. -/
def isAnyWord : Token → Bool
  | word _ => true
  | _ => false

/-- The token is a word that is not reserved. -/
def isFreeWord : Token → Bool
  | word s => !reservedWords.contains s
  | _ => false

/-- The token is a word that can refer to a value. -/
def isReference : Token → Bool
  | word s => !reservedWords.contains s && !strictWords.contains s
  | _ => false

/-- The binary operator the token is. -/
def operator? : Token → Option String
  | sign s => if (precedence? s).isSome then some s else none
  | word s => if s == "in" || s == "instanceof" then some s else none
  | _ => none

end Token

end Untranslated.Script
