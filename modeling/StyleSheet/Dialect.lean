import StyleSheet.Text

/-!
# Dialects

A style sheet is written in one of three dialects. The dialect is the only setting of the lexer and
of the grammar.
-/

namespace StyleSheet

/-- One of the three concrete grammars. -/
inductive Dialect where
  /-- Plain CSS. -/
  | css
  /-- Sass in its notation with braces. -/
  | scss
  /-- LESS. -/
  | less
deriving DecidableEq, Repr, Inhabited

/-- A dialect name that is not recognised, in lower case. -/
structure UnknownDialect where
  /-- The name, with its ASCII letters in lower case. -/
  name : Text
deriving DecidableEq, Repr

namespace UnknownDialect

/-- The message for a reader. -/
def message (e : UnknownDialect) : String :=
  "unknown style-sheet dialect '" ++ e.name.toString ++ "'"

end UnknownDialect

namespace Dialect

/-- The dialect of a style sheet about which nothing is said. -/
def standard : Dialect := .css

/-- Whether `//` opens a comment that runs to the end of the line. -/
def hasLineComments : Dialect → Bool
  | .css => false
  | .scss | .less => true

/-- The identifier that editors use for the dialect, also its printed name. -/
def identifier : Dialect → String
  | .css => "css"
  | .scss => "scss"
  | .less => "less"

/-- Reads a dialect name, without regard to ASCII case; `sass` is another name of SCSS. -/
def ofName (name : Text) : Except UnknownDialect Dialect :=
  let name := name.lower
  if name == Text.ofString "css" then .ok .css
  else if name == Text.ofString "scss" || name == Text.ofString "sass" then .ok .scss
  else if name == Text.ofString "less" then .ok .less
  else .error ⟨name⟩

/-- Guesses the dialect from what follows the last dot of a file path. -/
def ofPath? (path : Text) : Option Dialect :=
  (path.afterLast? (byte '.')).bind fun extension => (ofName extension).toOption

end Dialect

end StyleSheet
