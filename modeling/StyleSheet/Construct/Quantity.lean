import StyleSheet.Numeral
import StyleSheet.Tree.Site

/-!
# What numeric values say

A number, a percentage or a number with a unit is one token. `Quantity` splits it.
-/

namespace StyleSheet

/-- A numeric value. -/
structure Quantity where
  /-- The text of the token. -/
  text : Text
  /-- The number and the unit, if there is one. -/
  parts? : Option (Numeral × Option Text)
deriving Repr

namespace Quantity

/-- The kinds of tokens that begin with a number. -/
def isNumeric (kind : TokenKind) : Bool :=
  kind == .number || kind == .percentage || kind == .dimension

/-- Splits the text of a token. -/
def ofText (t : Text) : Quantity where
  text := t
  parts? := (Numeral.split? t).map fun (n, unit) => (n, if unit.isEmpty then none else some unit)

/-- Reads a node as a numeric value. -/
def ofSite (s : Site) : Quantity :=
  ofText (((s.tree.leaves.head?.filter fun l => isNumeric l.kind).map Leaf.text).getD [])

/-- The numeric values inside of a node, in order. -/
def all (s : Site) : List Quantity :=
  (s.descendants.filter fun n => n.kind == .numericValue).map ofSite

end Quantity

end StyleSheet
